import Toolchain6502.Proofs.C.Gains

namespace Toolchain6502.C

open Files Source

variable {location : Location} {name : String} {current : List String} {f : SourceFile}

/-- The bytes of page zero from the base up to the last one that a variable has. -/
def Compiled.pageZeroBytes (options : Options) (c : Compiled) : Int :=
  (c.addresses.map Prod.snd).max?.elim 0 fun last => last + 1 - options.zeroPageBase

/-- Two results with the same functions and the same variables, which take as many bytes of page
zero and have as many lines. -/
structure Compiled.Rearranged (options : Options) (c c' : Compiled) : Prop where
  functions : c.functions.Perm c'.functions
  names : ∀ name, name ∈ c.addresses.map Prod.fst ↔ name ∈ c'.addresses.map Prod.fst
  bytes : c.pageZeroBytes options = c'.pageZeroBytes options
  lines : c.lines.length = c'.lines.length

namespace Pass

variable {base : Int} {p p' q : Pass} {m : Account}

theorem bodyLine_gains {function : String} {text : List Char} (hm : p.Holds base m)
    (hinside : p.function ≠ none) (h : p.bodyLine function text location = .ok p') :
    ∃ amount, Gains base p p' m amount (·.bodyLine function text location) := by
  unfold bodyLine at h ⊢
  obtain ⟨d, hd, h⟩ := bind_eq_ok.mp h
  simp only [hd, ok_bind]
  cases d with
  | some d => exact declareLocal_gains hm hinside h
  | none =>
  obtain ⟨c, hc, h⟩ := bind_eq_ok.mp h
  simp only [hc, ok_bind]
  cases c with
  | some c => exact openIf_gains hm h
  | none =>
  obtain ⟨c, hc, h⟩ := bind_eq_ok.mp h
  simp only [hc, ok_bind]
  cases c with
  | some c => exact openWhile_gains hm h
  | none =>
  obtain ⟨header, hheader, h⟩ := bind_eq_ok.mp h
  simp only [hheader, ok_bind]
  cases header with
  | some header => exact openFor_gains hm h
  | none =>
  by_cases hbrace : text = ['\x7d']
  · simp only [hbrace, if_true] at h ⊢
    exact close_gains hm h
  · simp only [hbrace, if_false] at h ⊢
    exact statement_gains hm h

theorem endIf_gains (label label' : String) (hm : p.Holds base m) :
    Gains base p ({ p with pendingEnd := none }.emit [.label label]) m (.ofLines 1) fun q =>
      .ok ({ q with pendingEnd := none }.emit [.label label']) :=
  .change hm ⟨rfl, rfl, List.length_append, id⟩ fun _ hq =>
    ⟨_, rfl, { hq with pending := rfl }, rfl, rfl, List.length_append, id⟩

theorem innerLine_gains {function : String} {text : List Char} (hm : p.Holds base m)
    (hinside : p.function ≠ none) (h : p.innerLine function text location = .ok p') :
    ∃ amount, Gains base p p' m amount (·.innerLine function text location) := by
  unfold innerLine at h
  cases hpending : p.pendingEnd with
  | none =>
    simp only [hpending] at h
    obtain ⟨amount, hbody⟩ := bodyLine_gains hm hinside h
    refine ⟨amount, .each fun q hq => ⟨_, hbody, ?_⟩⟩
    have hnone : q.pendingEnd = none := by simpa [hpending] using hq.pending
    simp only [innerLine, hnone]
    exact fun q' hq' => hq'
  | some label =>
    have hother {q : Pass} (hq : p.Alike q) : ∃ label', q.pendingEnd = some label' :=
      Option.isSome_iff_exists.mp (by rw [hq.pending, hpending]; rfl)
    simp only [hpending] at h
    by_cases helse : isElse text = true
    · simp only [helse, if_true] at h
      obtain rfl := Except.ok.inj h
      refine ⟨.ofLines 0, .change hm ⟨rfl, rfl, rfl, id⟩ fun q hq => ?_⟩
      obtain ⟨label', hlabel'⟩ := hother hq
      refine ⟨{ q with pendingEnd := none }.openBlock (.elsePart label'), ?_, ?_, rfl, rfl, rfl, id⟩
      · simp only [innerLine, hlabel', helse, if_true]
      · have hcleared : Alike { p with pendingEnd := none } { q with pendingEnd := none } :=
          { hq with pending := rfl }
        exact hcleared.openBlock rfl
    · simp only [helse, if_false, Bool.false_eq_true] at h
      have hended (label' : String) := endIf_gains label label' hm
      obtain ⟨amount, hbody⟩ := bodyLine_gains (hended "").holds hinside h
      refine ⟨.ofLines 1 + amount, .each fun q hq => ?_⟩
      obtain ⟨label', hlabel'⟩ := hother hq
      refine ⟨_, (hended label').trans hbody, ?_⟩
      simp only [innerLine, hlabel', helse, if_false, Bool.false_eq_true]
      exact fun q' hq' => hq'

def giveValue (p : Pass) (i : Initializer) : Except Failure Pass := do
  let value ← atLine i.target.location i.source
    (readExpression p.globalScope i.expression.toList)
  p.perform "Init" (.assign i.target.address value)

theorem giveValue_gains {i : Initializer} (hm : p.Holds base m) (h : p.giveValue i = .ok p') :
    p.Alike p' ∧ ∃ amount, ∀ j : Initializer, j.expression = i.expression →
      Gains base p p' m amount (·.giveValue j) := by
  obtain ⟨value, hvalue, h⟩ := bind_eq_ok.mp h
  refine ⟨generate_eq_ok h ▸ (Alike.refl p).withEmitter _ _, _, fun j hj =>
    .generate hm h fun q hq => ?_⟩
  obtain ⟨value', hvalue', hform⟩ :=
    hq.globalScope.readExpression i.expression.toList value (atLine_eq_ok.mp hvalue)
  refine ⟨_, _, Statement.Alike.assign _ j.target.address hform "Init", ?_⟩
  rw [giveValue, hj, atLine_eq_ok.mpr hvalue', ok_bind, perform]

theorem moveTo_gains {file file' : Path} {line line' : Int} (hm : p.Holds base m) :
    Gains base p (p.moveTo file line) m (.ofLines 0) fun q => .ok (q.moveTo file' line') :=
  .change hm ⟨rfl, rfl, rfl, id⟩ fun _ hq => ⟨_, rfl, hq.withEmitter _ _, rfl, rfl, rfl, id⟩

theorem setGlobal_gains {i : Initializer} (hm : p.Holds base m) (h : p.setGlobal i = .ok p') :
    p.Alike p' ∧ ∃ amount, ∀ j : Initializer, j.expression = i.expression →
      Gains base p p' m amount (·.setGlobal j) := by
  have hmoved (j : Initializer) : Gains base p (p.moveTo i.file i.target.location.line) m
      (.ofLines 0) fun q => .ok (q.moveTo j.file j.target.location.line) := moveTo_gains hm
  obtain ⟨halike, amount, hgiven⟩ := giveValue_gains (hmoved i).holds h
  refine ⟨((Alike.refl p).withEmitter _ _).trans halike, .ofLines 0 + amount, fun j hj => ?_⟩
  exact (hmoved j).trans (hgiven j hj)

theorem setGlobals_gains (hm : p.Holds base m) (h : p.setGlobals = .ok p') :
    p.Alike p' ∧ ∃ amount, Gains base p p' m amount (·.setGlobals) := by
  have hstep (s : Pass) (i : Initializer) (s' : Pass) (m : Account) (hs : p.Alike s)
      (hm : s.Holds base m) (hs' : s.setGlobal i = .ok s') : p.Alike s' ∧ ∃ amount,
        ∀ j : Initializer, j.expression = i.expression →
          Gains base s s' m amount (·.setGlobal j) := by
    obtain ⟨hkept, hgains⟩ := setGlobal_gains hm hs'
    exact ⟨hs.trans hkept, hgains⟩
  -- the values stand in the order of the files, so another state may have them in another order
  obtain ⟨halike, sum, hsum, hothers⟩ := Gains.reordered hstep hm h
  refine ⟨halike, sum, hsum, fun q n hq hn hfits => ?_⟩
  obtain ⟨q', hq', halike', hholds⟩ := hothers _ q n hq.initial hq hn hfits
  exact ⟨q', hq', halike.symm.trans halike', hholds⟩

def withFunction (p : Pass) (name : String) (location : Location) : Pass :=
  { p with functions := p.functions ++ [(name, location)] }.emit [.label name]

/-- A function must not have been defined before. -/
def nameFunction (p : Pass) (name : String) (location : Location) : Except Failure Pass :=
  match p.functions.lookup name with
  | some first => fail (.duplicate .function name first)
  | none => .ok (p.withFunction name location)

theorem nameFunction_eq_ok :
    p.nameFunction name location = .ok p' ↔
      name ∉ p.functions.map Prod.fst ∧ p' = p.withFunction name location := by
  have hnew : p.functions.lookup name = none ↔ name ∉ p.functions.map Prod.fst := by
    rw [List.lookup_eq_none_iff]
    simp only [List.mem_map, not_exists, not_and, bne_iff_ne, ne_eq, @eq_comm _ name]
  rw [← hnew, nameFunction]
  cases p.functions.lookup name with
  | none => simp [eq_comm]
  | some first => simp [fail]

theorem Holds.fits_function_iff (h : p.Holds base m) (name : String) :
    (m + .ofFunction name).Fits base ↔ name ∉ p.functions.map Prod.fst := by
  rw [← Multiset.mem_coe, h.functions]
  have hfunctions : (m + .ofFunction name).functions.Nodup ↔ name ∉ m.functions :=
    nodup_add_singleton.trans (and_iff_left h.allocation.fits.functions)
  refine ⟨fun hfits => hfunctions.mp hfits.functions, fun hnew => ?_⟩
  have hplaced : (m + .ofFunction name).placed = m.placed := by
    simp [Account.placed, Account.ofFunction]
  have hglobals : (m + .ofFunction name).globals = m.globals := add_zero _
  exact ⟨hplaced ▸ h.allocation.fits.room, hglobals ▸ h.allocation.fits.globals,
    hfunctions.mpr hnew⟩

theorem Holds.withFunction (h : p.Holds base m) (hfits : (m + .ofFunction name).Fits base)
    (location : Location) :
    (p.withFunction name location).Holds base (m + .ofFunction name) where
  allocation := h.allocation.of_eq hfits (add_zero _) (add_zero _) (add_zero _) (add_zero _)
  functions := by
    have hfunctions := h.functions
    simp only [Pass.withFunction, emit, List.map_append, ← Multiset.coe_add, hfunctions]
    rfl
  lines := by
    rw [Account.add_lines, ← h.lines]
    exact List.length_append
  settled := h.settled

theorem nameFunction_gains (location' : Location) (hm : p.Holds base m)
    (h : p.nameFunction name location = .ok p') :
    Gains base p p' m (.ofFunction name) (·.nameFunction name location') := by
  obtain ⟨hnew, rfl⟩ := nameFunction_eq_ok.mp h
  refine ⟨hm.withFunction ((hm.fits_function_iff name).mpr hnew) location, ?_⟩
  intro q n halike hq hfits
  exact ⟨_, nameFunction_eq_ok.mpr ⟨(hq.fits_function_iff name).mp hfits, rfl⟩,
    { halike with }, hq.withFunction hfits location'⟩

/-- Initial values are set where `Init` starts. -/
def begin (p : Pass) (name : String) : Except Failure Pass :=
  if name = "Init" then p.setGlobals else .ok p

theorem begin_gains (hm : p.Holds base m) (h : p.begin name = .ok p') :
    ∃ amount, Gains base p p' m amount (·.begin name) := by
  by_cases hinit : name = "Init"
  · simp only [begin, hinit, if_true] at h ⊢
    exact (setGlobals_gains hm h).2
  · simp only [begin, hinit, if_false] at h ⊢
    obtain rfl := Except.ok.inj h
    exact ⟨_, .nothing hm⟩

def enter (p : Pass) (name : String) (origin : Origin) : Pass :=
  { p.moveTo origin.file origin.line with function := some name, locals := [], pendingEnd := none }

theorem openFunction_eq (p : Pass) (name : String) (location : Location) :
    p.openFunction name location = (p.nameFunction name location >>= fun q =>
      q.begin name >>= fun q => .ok (q.enter name p.emitter.origin)) := by
  unfold openFunction nameFunction begin
  cases p.functions.lookup name with
  | some first => rfl
  | none =>
    by_cases hinit : name = "Init"
    · simp only [hinit, if_true]
      rfl
    · simp only [hinit, if_false]
      rfl

theorem openFunction_gains (hm : p.Holds base m) (h : p.openFunction name location = .ok p') :
    ∃ amount, Gains base p p' m amount (·.openFunction name location) := by
  simp only [openFunction_eq] at h ⊢
  obtain ⟨p₁, hp₁, h⟩ := bind_eq_ok.mp h
  obtain ⟨p₂, hp₂, h⟩ := bind_eq_ok.mp h
  obtain rfl := Except.ok.inj h
  have hnamed := nameFunction_gains location hm hp₁
  obtain ⟨amount, hbegun⟩ := begin_gains hnamed.holds hp₂
  have hentered (origin origin' : Origin) : Gains base p₂ (p₂.enter name origin)
      (m + .ofFunction name + amount) (.ofLines 0) fun q => .ok (q.enter name origin') := by
    have hemits (q : Pass) (o : Origin) : q.Emits 0 (q.enter name o) :=
      ⟨rfl, rfl, rfl, fun _ hnone => nomatch hnone⟩
    refine .change hbegun.holds (hemits _ _) fun q hq => ⟨_, rfl, ?_, hemits _ _⟩
    exact { hq with function := rfl, locals := rfl, pending := rfl }
  refine ⟨.ofFunction name + (amount + .ofLines 0), .each fun q _ => ?_⟩
  exact ⟨_, hnamed.trans (hbegun.trans (hentered _ q.emitter.origin)), fun q' hq' => hq'⟩

def initFunction (p : Pass) (first : Initializer) : Except Failure Pass := do
  let q ← (p.moveTo first.file first.target.location.line).nameFunction "Init"
    first.target.location
  let q ← q.setGlobals
  return q.emit [leaveCode "Init", .empty]

theorem initFunction_gains {i : Initializer} (hm : p.Holds base m)
    (h : p.initFunction i = .ok p') :
    p.Alike p' ∧ ∃ amount, ∀ j, Gains base p p' m amount (·.initFunction j) := by
  obtain ⟨p₁, hp₁, h⟩ := bind_eq_ok.mp h
  obtain ⟨p₂, hp₂, h⟩ := bind_eq_ok.mp h
  obtain rfl := Except.ok.inj h
  have hmoved (j : Initializer) : Gains base p (p.moveTo i.file i.target.location.line) m
      (.ofLines 0) fun q => .ok (q.moveTo j.file j.target.location.line) := moveTo_gains hm
  have hnamed (j : Initializer) := nameFunction_gains j.target.location (hmoved i).holds hp₁
  obtain ⟨hkept, amount, hset⟩ := setGlobals_gains (hnamed i).holds hp₂
  have hemits (q : Pass) : q.Emits 2 (q.emit [leaveCode "Init", .empty]) :=
    ⟨rfl, rfl, List.length_append, id⟩
  have hleft := Gains.change hset.holds (hemits p₂) fun q hq =>
    ⟨_, rfl, hq.withEmitter _ _, hemits q⟩
  have hstart : p.Alike p₁ := by
    obtain ⟨-, rfl⟩ := nameFunction_eq_ok.mp hp₁
    exact { Alike.refl p with }
  refine ⟨(hstart.trans hkept).withEmitter p.emitter _, ?_⟩
  exact ⟨.ofLines 0 + (.ofFunction "Init" + (amount + .ofLines 2)), fun j =>
    (hmoved j).trans ((hnamed j).trans (hset.trans hleft))⟩

theorem addInit_eq {first : Initializer} {rest : List Initializer}
    (hinitial : p.allocation.initializers = first :: rest)
    (hdeclared : "Init" ∉ p.allocation.declared) (hnew : "Init" ∉ p.functions.map Prod.fst) :
    p.addInit = p.initFunction first := by
  have hmoved : "Init" ∉
      (p.moveTo first.file first.target.location.line).functions.map Prod.fst := hnew
  rw [initFunction, nameFunction_eq_ok.mpr ⟨hmoved, rfl⟩]
  simp only [addInit, hinitial, List.contains_iff_mem, hdeclared, if_false]
  rfl

theorem addInit_gains (hm : p.Holds base m) (hnone : p.functions = []) (h : p.addInit = .ok p') :
    p.Alike p' ∧ ∃ amount, Gains base p p' m amount addInit := by
  have hskips {q : Pass} (hq : q.allocation.initializers = [] ∨ "Init" ∈ q.allocation.declared) :
      q.addInit = .ok q := by
    unfold addInit
    split
    · rfl
    · rename_i hcons
      have hdeclared := hq.resolve_left (by simp [hcons])
      simp only [List.contains_iff_mem, hdeclared, if_true]
  by_cases hskip : p.allocation.initializers = [] ∨ "Init" ∈ p.allocation.declared
  · obtain rfl := Except.ok.inj ((hskips hskip).symm.trans h)
    refine ⟨.refl p, .ofLines 0, .each fun q hq => ⟨_, .nothing hm, fun q' hq' => ?_⟩⟩
    rw [hskips]
    · exact hq'
    · refine hskip.imp (fun hempty => ?_) hq.declared.mem_iff.mp
      simpa [hempty] using hq.initial
  · obtain ⟨hsome, hdeclared⟩ := not_or.mp hskip
    obtain ⟨first, rest, hinitial⟩ := List.exists_cons_of_ne_nil hsome
    rw [addInit_eq hinitial hdeclared (by simp [hnone])] at h
    obtain ⟨hkept, amount, hgains⟩ := initFunction_gains hm h
    refine ⟨hkept, amount, .each fun q hq => ?_⟩
    obtain ⟨first', rest', hinitial'⟩ : ∃ first' rest',
        q.allocation.initializers = first' :: rest' := by
      apply List.exists_cons_of_ne_nil
      intro hempty
      simpa [hinitial, hempty] using hq.initial
    refine ⟨_, hgains first', fun q' hq' => ?_⟩
    obtain ⟨_, hnamed, -⟩ := bind_eq_ok.mp hq'
    rwa [addInit_eq hinitial' (hdeclared ∘ hq.declared.mem_iff.mpr)
      (nameFunction_eq_ok.mp hnamed).1]

theorem topLine_gains {line : SourceLine} (hm : p.Holds base m)
    (h : p.topLine line location = .ok p') :
    ∃ amount, Gains base p p' m amount (·.topLine line location) := by
  unfold topLine at h ⊢
  obtain ⟨d, hd, h⟩ := bind_eq_ok.mp h
  simp only [hd, ok_bind]
  cases d with
  | some d =>
    obtain rfl := Except.ok.inj h
    exact ⟨_, .nothing hm⟩
  | none =>
  obtain ⟨external, hexternal, h⟩ := bind_eq_ok.mp h
  simp only [Option.isSome_none, Bool.false_eq_true, if_false, hexternal, ok_bind]
  cases external with
  | true =>
    obtain rfl := Except.ok.inj h
    exact ⟨_, .nothing hm⟩
  | false =>
  obtain ⟨prototype, hprototype, h⟩ := bind_eq_ok.mp h
  simp only [Bool.false_eq_true, if_false, hprototype, ok_bind]
  cases prototype with
  | some prototype =>
    obtain rfl := Except.ok.inj h
    exact ⟨_, .nothing hm⟩
  | none =>
  obtain ⟨start, hstart, h⟩ := bind_eq_ok.mp h
  simp only [Option.isSome_none, Bool.false_eq_true, if_false, hstart, ok_bind]
  cases start with
  | none => simp [fail] at h
  | some name => exact openFunction_gains hm h

theorem line_gains {file : SourceFile} {path : Path} {line : SourceLine} (hm : p.Holds base m)
    (h : p.line file path line = .ok p') :
    ∃ amount, Gains base p p' m amount (·.line file path line) := by
  have hmoved : Gains base p (p.moveTo path line.number) m (.ofLines 0) fun q =>
      .ok (q.moveTo path line.number) := moveTo_gains hm
  have h := atLine_eq_ok.mp h
  cases hfunction : p.function with
  | none =>
    have hfunction' : (p.moveTo path line.number).function = none := hfunction
    simp only [hfunction'] at h
    obtain ⟨amount, htop⟩ := topLine_gains hmoved.holds h
    refine ⟨.ofLines 0 + amount, .each fun q hq => ⟨_, hmoved.trans htop, fun q' hq' => ?_⟩⟩
    have hq : (q.moveTo path line.number).function = none := hq.function.trans hfunction
    simp only [Pass.line, atLine_eq_ok, hq]
    exact hq'
  | some function =>
    have hfunction' : (p.moveTo path line.number).function = some function := hfunction
    simp only [hfunction'] at h
    obtain ⟨amount, hinner⟩ := innerLine_gains hmoved.holds (by simp [hfunction']) h
    refine ⟨.ofLines 0 + amount, .each fun q hq => ⟨_, hmoved.trans hinner, fun q' hq' => ?_⟩⟩
    have hq : (q.moveTo path line.number).function = some function := hq.function.trans hfunction
    simp only [Pass.line, atLine_eq_ok, hq]
    exact hq'

theorem Alike.openAtEnd? (h : p.Alike q) : q.openAtEnd? = p.openAtEnd? := by
  have hblocks : q.blocks.isEmpty = p.blocks.isEmpty := by
    simpa using congrArg List.isEmpty h.blocks
  simp only [Pass.openAtEnd?, h.function, h.pending, hblocks]

theorem file_gains (hm : p.Holds base m) (h : p.file current f = .ok p') :
    ∃ amount, Gains base p p' m amount (·.file current f) := by
  obtain ⟨path, hpath, hlines, hopen⟩ := file_eq_ok_iff.mp h
  obtain ⟨amount, hgains⟩ := Gains.foldlM (fun _ _ _ _ hm h => line_gains hm h) hm hlines
  refine ⟨amount, hgains.holds, fun q n hq hn hfits => ?_⟩
  obtain ⟨q', hq', halike, hholds⟩ := hgains.others q n hq hn hfits
  exact ⟨q', file_eq_ok_iff.mpr ⟨path, hpath, hq', halike.openAtEnd?.trans hopen⟩, halike, hholds⟩

structure Idle (p : Pass) : Prop where
  function : p.function = none
  locals : p.locals = []
  blocks : p.blocks = []
  pending : p.pendingEnd = none

theorem Idle.of_alike (h : p.Idle) (halike : p.Alike q) : q.Idle where
  function := halike.function.trans h.function
  locals := by simpa [h.locals] using halike.locals
  blocks := by simpa [h.blocks] using halike.blocks
  pending := by simpa [h.pending] using halike.pending

theorem file_keeps (h : p.file current f = .ok p') :
    p'.constants = p.constants ∧ p'.allocation.globals = p.allocation.globals ∧
      p'.allocation.initializers = p.allocation.initializers ∧
      p'.allocation.declared = p.allocation.declared := by
  obtain ⟨path, -, hlines, -⟩ := file_eq_ok_iff.mp h
  refine foldlM_preserves (P := fun q => q.constants = p.constants ∧
    q.allocation.globals = p.allocation.globals ∧
    q.allocation.initializers = p.allocation.initializers ∧
    q.allocation.declared = p.allocation.declared) ?_ ⟨rfl, rfl, rfl, rfl⟩ hlines
  rintro q l q' - ⟨hconstants, hrest⟩ hq'
  have hextends := line_extends hq'
  generalize q.localAt? l = d at hextends
  cases hextends with
  | nothing hconstants' hallocation =>
    rw [hallocation, hconstants']
    exact ⟨hconstants, hrest⟩
  | places _ hplace hconstants' hallocation =>
    obtain ⟨-, -, rfl⟩ := place_eq_ok.mp hplace
    rw [hallocation, hconstants']
    exact ⟨hconstants, hrest⟩

theorem file_idle (hm : p'.Holds base m) (h : p.file current f = .ok p') : p'.Idle := by
  obtain ⟨path, -, -, hopen⟩ := file_eq_ok_iff.mp h
  unfold openAtEnd? at hopen
  split_ifs at hopen with hfunction hpending hblocks
  have hnone : p'.function = none := by simpa using hfunction
  exact ⟨hnone, hm.settled hnone, by simpa using hblocks, by simpa using hpending⟩

/-- A file leaves what is known outside functions as it was. -/
theorem file_alike (hidle : p.Idle) (hm : p'.Holds base m) (h : p.file current f = .ok p') :
    p.Alike p' := by
  obtain ⟨hconstants, hglobals, hinitial, hdeclared⟩ := file_keeps h
  have hidle' := file_idle hm h
  refine ⟨hconstants, by rw [hglobals], by rw [hinitial], by rw [hdeclared], ?_, ?_, ?_, ?_⟩
  · rw [hidle.function, hidle'.function]
  · rw [hidle.locals, hidle'.locals]
  · rw [hidle.blocks, hidle'.blocks]
  · rw [hidle.pending, hidle'.pending]

theorem files_reordered {files files' : List SourceFile} (hperm : files.Perm files')
    (hidle : p.Idle) (hm : p.Holds base m) (h : files.foldlM (file current) p = .ok p') :
    ∃ sum, p'.Holds base (m + sum) ∧ ∀ q, p.Alike q → q.Holds base m →
      ∃ q', files'.foldlM (file current) q = .ok q' ∧ q'.Holds base (m + sum) := by
  have hstep (s : Pass) (f : SourceFile) (s' : Pass) (m : Account) (hs : p.Alike s)
      (hm : s.Holds base m) (hs' : s.file current f = .ok s') : p.Alike s' ∧
        ∃ amount, ∀ g, id g = id f → Gains base s s' m amount (·.file current g) := by
    obtain ⟨amount, hgains⟩ := file_gains hm hs'
    refine ⟨hs.trans (file_alike (hidle.of_alike hs) hgains.holds hs'), amount, ?_⟩
    rintro g rfl
    exact hgains
  obtain ⟨-, sum, hsum, hothers⟩ := Gains.reordered hstep hm h
  refine ⟨sum, hsum, fun q hq hn => ?_⟩
  obtain ⟨q', hq', -, hholds⟩ := hothers _ q m (hperm.map id) hq hn hsum.allocation.fits
  exact ⟨q', hq', hholds⟩

end Pass

theorem Allocation.Takes.pageZeroBytes {options : Options} {a : Allocation}
    {names : Multiset String} (h : a.Takes options.zeroPageBase names)
    (lines : List (CodeLine × Origin)) (functions : List String) :
    Compiled.pageZeroBytes options ⟨lines, a.addresses, functions⟩ = names.card := by
  unfold Compiled.pageZeroBytes
  by_cases hnone : names = 0
  · have hempty : a.addresses = [] := by
      rw [← List.map_eq_nil_iff (f := Prod.fst), List.eq_nil_iff_forall_not_mem]
      simp [h.known, hnone]
    simp [hempty, hnone]
  · obtain ⟨v, hv, hlast⟩ := h.last hnone
    have hmax : (a.addresses.map Prod.snd).max? = some (a.next - 1) := by
      rw [List.max?_eq_some_iff]
      refine ⟨List.mem_map.mpr ⟨v, hv, hlast⟩, ?_⟩
      intro address haddress
      obtain ⟨w, hw, rfl⟩ := List.mem_map.mp haddress
      have hbelow := h.below w hw
      omega
    have hnext := h.next
    simp only [hmax, Option.elim_some]
    omega

theorem Pass.Holds.rearranged {options : Options} {p q : Pass} {m : Account}
    (hp : p.Holds options.zeroPageBase m) (hq : q.Holds options.zeroPageBase m) :
    Compiled.Rearranged options
      ⟨p.emitter.lines, p.allocation.addresses, p.functions.map Prod.fst⟩
      ⟨q.emitter.lines, q.allocation.addresses, q.functions.map Prod.fst⟩ where
  functions := Multiset.coe_eq_coe.mp (hp.functions.trans hq.functions.symm)
  names name := (hp.allocation.takes.known name).trans (hq.allocation.takes.known name).symm
  bytes := by rw [hp.allocation.takes.pageZeroBytes, hq.allocation.takes.pageZeroBytes]
  lines := hp.lines.trans hq.lines.symm

theorem exists_compile_of_perm {options : Options} {files files' : List SourceFile} {c : Compiled}
    (hperm : files.Perm files') (h : compile current options files = .ok c) :
    ∃ c', compile current options files' = .ok c' ∧ c.Rearranged options c' := by
  obtain ⟨a, ha, h⟩ := bind_eq_ok.mp h
  obtain ⟨p₁, hp₁, h⟩ := bind_eq_ok.mp h
  obtain ⟨p₂, hp₂, h⟩ := bind_eq_ok.mp h
  obtain rfl := Except.ok.inj h
  obtain ⟨m, a', ha', hm, hm'⟩ := Allocation.addFiles_reordered hperm ha
  -- no function has been compiled yet, and no line emitted
  have hstart {b : Allocation} (hb : b.Holds options.zeroPageBase m) :
      Pass.Holds options.zeroPageBase { constants := options.constants, allocation := b }
        { m with functions := 0, lines := 0 } :=
    ⟨hb.of_eq ⟨hb.fits.room, hb.fits.globals, Multiset.nodup_zero⟩ rfl rfl rfl rfl, rfl, rfl,
      fun _ => rfl⟩
  have halike : Pass.Alike { constants := options.constants, allocation := a }
      { constants := options.constants, allocation := a' } :=
    ⟨rfl, Multiset.coe_eq_coe.mp (hm.globals.trans hm'.globals.symm),
      Multiset.coe_eq_coe.mp (hm.initial.trans hm'.initial.symm),
      Multiset.coe_eq_coe.mp (hm.declared.trans hm'.declared.symm), rfl, rfl, rfl, rfl⟩
  have hidle : Pass.Idle { constants := options.constants, allocation := a } := ⟨rfl, rfl, rfl, rfl⟩
  obtain ⟨hkept, amount, hinit⟩ := Pass.addInit_gains (hstart hm) rfl hp₁
  obtain ⟨q₁, hq₁, halike₁, hholds₁⟩ :=
    hinit.others _ _ halike (hstart hm') hinit.holds.allocation.fits
  obtain ⟨sum, hsum, hothers⟩ :=
    Pass.files_reordered hperm (hidle.of_alike hkept) hinit.holds hp₂
  obtain ⟨q₂, hq₂, hholds₂⟩ := hothers q₁ halike₁ hholds₁
  refine ⟨⟨q₂.emitter.lines, q₂.allocation.addresses, q₂.functions.map Prod.fst⟩, ?_,
    hsum.rearranged hholds₂⟩
  simp only [compile, ha', hq₁, hq₂, ok_bind, pure_eq_ok]

/-- The order of the files decides neither whether they compile nor what they define. -/
theorem compile_perm (current : List String) (options : Options) {files files' : List SourceFile}
    (hperm : files.Perm files') :
    ((∃ c, compile current options files = .ok c) ↔ ∃ c', compile current options files' = .ok c') ∧
      ∀ c c', compile current options files = .ok c → compile current options files' = .ok c' →
        c.Rearranged options c' := by
  refine ⟨⟨fun ⟨c, hc⟩ => ?_, fun ⟨c', hc'⟩ => ?_⟩, fun c c' hc hc' => ?_⟩
  · obtain ⟨c', hc', -⟩ := exists_compile_of_perm hperm hc
    exact ⟨c', hc'⟩
  · obtain ⟨c, hc, -⟩ := exists_compile_of_perm hperm.symm hc'
    exact ⟨c, hc⟩
  · obtain ⟨c'', hc'', hsame⟩ := exists_compile_of_perm hperm hc
    obtain rfl := Except.ok.inj (hc''.symm.trans hc')
    exact hsame

/-- Two files with a local of the same name, one of which uses a global of the other. -/
def counterSource : SourceFile := .ofText (.ofText "counter.c")
  "unsigned char count = 3;
void Update() \x7b
  unsigned char i = limit;
  if (count < i) \x7b
    count++;
  \x7d
\x7d"

def limitSource : SourceFile := .ofText (.ofText "limit.c")
  "unsigned char limit;
void Draw() \x7b
  unsigned char i;
\x7d"

/-- In the other order the globals change places, and so do the functions. -/
theorem counter_limit_rearranged : ∃ c c', compile [] {} [counterSource, limitSource] = .ok c ∧
    compile [] {} [limitSource, counterSource] = .ok c' ∧
    c.addresses = [("count", 0x40), ("limit", 0x41), ("i", 0x43)] ∧
    c'.addresses = [("limit", 0x40), ("count", 0x41), ("i", 0x43)] ∧
    c.functions = ["Init", "Update", "Draw"] ∧ c.pageZeroBytes {} = 4 ∧
    c.Rearranged {} c' := by
  have hrun : ((compile [] {} [counterSource, limitSource]).toOption.map fun c =>
      (c.addresses, c.functions, c.pageZeroBytes {})) =
        some ([("count", 0x40), ("limit", 0x41), ("i", 0x43)], ["Init", "Update", "Draw"], 4) := by
    decide +kernel
  have hrun' : ((compile [] {} [limitSource, counterSource]).toOption.map Compiled.addresses) =
      some [("limit", 0x40), ("count", 0x41), ("i", 0x43)] := by
    decide +kernel
  obtain ⟨c, hc, hrun⟩ := Option.map_eq_some_iff.mp hrun
  obtain ⟨c', hc', haddresses'⟩ := Option.map_eq_some_iff.mp hrun'
  simp only [Prod.mk.injEq] at hrun
  obtain ⟨haddresses, hfunctions, hbytes⟩ := hrun
  have hc := eq_ok_of_toOption hc
  have hc' := eq_ok_of_toOption hc'
  obtain ⟨-, hsame⟩ := compile_perm [] {} (List.Perm.swap limitSource counterSource [])
  exact ⟨c, c', hc, hc', haddresses, haddresses', hfunctions, hbytes, hsame c c' hc hc'⟩

end Toolchain6502.C
