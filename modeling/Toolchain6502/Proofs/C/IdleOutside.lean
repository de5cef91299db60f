import Toolchain6502.Proofs.C.FileOrder

namespace Toolchain6502.C

open Files Source

namespace Pass

variable {p p' q : Pass} {function : String} {location : Location}

def ended (p : Pass) (function : String) : Pass :=
  { p.emit [leaveCode function, .empty] with function := none, locals := [] }

theorem close_ends (h : p.close function = .ok p') :
    p'.function = p.function ∨ p.blocks = [] ∧ p' = p.ended function := by
  cases hblocks : p.blocks with
  | nil =>
    rw [close, hblocks] at h
    exact .inr ⟨rfl, (Except.ok.inj h).symm⟩
  | cons b blocks =>
    cases close_nests rfl h with
    | stays _ hfunction _ => exact .inl hfunction
    | opens _ hfunction _ => exact .inl hfunction
    | closes _ hfunction _ => exact .inl hfunction
    | ends _ _ hnone _ => simp [hblocks] at hnone

/-- A line of a body stays in its function, or it is the brace that ends it. -/
theorem bodyLine_ends {text : List Char} (h : p.bodyLine function text location = .ok p') :
    p'.function = p.function ∨ p.blocks = [] ∧ p' = p.ended function := by
  unfold bodyLine at h
  obtain ⟨d, -, h⟩ := bind_eq_ok.mp h
  cases d with
  | some d => exact .inl (declareLocal_keeps h).1
  | none =>
  obtain ⟨c, -, h⟩ := bind_eq_ok.mp h
  cases c with
  | some c => exact .inl (openIf_blocks h).1
  | none =>
  obtain ⟨c, -, h⟩ := bind_eq_ok.mp h
  cases c with
  | some c => exact .inl (openWhile_blocks h).1
  | none =>
  obtain ⟨header, -, h⟩ := bind_eq_ok.mp h
  cases header with
  | some header => exact .inl (openFor_blocks h).1
  | none =>
  simp only at h
  split at h
  · exact close_ends h
  · exact .inl (Keeps.statement h).function

theorem ended_idle (hblocks : p.blocks = []) (hpending : p.pendingEnd = none) :
    (p.ended function).Idle :=
  ⟨rfl, rfl, hblocks, hpending⟩

/-- An `if` that waits is settled before the line is looked at, so none waits behind the brace that
ends the function. -/
theorem innerLine_ends {text : List Char} (h : p.innerLine function text location = .ok p') :
    p'.function = p.function ∨ p'.Idle := by
  unfold innerLine at h
  split at h
  · next hpending =>
    rcases bodyLine_ends h with hstays | ⟨hblocks, rfl⟩
    · exact .inl hstays
    · exact .inr (ended_idle hblocks hpending)
  · split at h
    · exact .inl (Except.ok.inj h ▸ rfl)
    · rcases bodyLine_ends h with hstays | ⟨hblocks, rfl⟩
      · exact .inl hstays
      · exact .inr (ended_idle hblocks rfl)

/-- Outside functions nothing is open, and a function that is open is the last one. -/
structure Orderly (p : Pass) : Prop where
  outside : p.function = none → p.Idle
  inside : ∀ name, p.function = some name → (p.functions.getLast?).map Prod.fst = some name

theorem Idle.orderly (h : p.Idle) : p.Orderly :=
  ⟨fun _ => h, fun name hname => by simp [h.function] at hname⟩

theorem Orderly.line (h : p.Orderly) {file : SourceFile} {path : Path} {line : SourceLine}
    (hp : p.line file path line = .ok p') : p'.Orderly := by
  have hp := atLine_eq_ok.mp hp
  have hmoved : (p.moveTo path line.number).Orderly :=
    ⟨fun hnone => ⟨hnone, (h.outside hnone).locals, (h.outside hnone).blocks,
      (h.outside hnone).pending⟩, h.inside⟩
  cases hfunction : (p.moveTo path line.number).function with
  | none =>
    simp only [hfunction] at hp
    rcases topLine_kind hp with ⟨rfl, -⟩ | ⟨name, -, hopen⟩
    · exact hmoved
    · obtain ⟨hopened, -, hfunctions⟩ := openFunction_keeps hopen
      refine ⟨fun hnone => by simp [hopened] at hnone, fun other hother => ?_⟩
      rw [hfunctions, List.getLast?_concat, Option.map_some, ← hother, hopened]
  | some function =>
    simp only [hfunction] at hp
    rcases innerLine_ends hp with hstays | hidle
    · refine ⟨fun hnone => ?_, fun name hname => ?_⟩
      · simp [← hstays, hnone] at hfunction
      · rw [(Writes.innerLine hp).functions]
        exact hmoved.inside name (hstays ▸ hname)
    · exact hidle.orderly

theorem Orderly.lines (h : p.Orderly) {file : SourceFile} {path : Path} {ls : List SourceLine}
    (hp : ls.foldlM (fun p l => p.line file path l) p = .ok p') : p'.Orderly :=
  foldlM_preserves (fun _ _ _ _ h hp => h.line hp) h hp

theorem Orderly.openAtEnd? (h : p.Orderly) :
    p.openAtEnd? = if p.function.isSome then some .unterminatedFunction else none := by
  cases hfunction : p.function with
  | some name => simp [Pass.openAtEnd?, hfunction]
  | none =>
    have hidle := h.outside hfunction
    simp [Pass.openAtEnd?, hfunction, hidle.pending, hidle.blocks]

theorem Idle.file {current : List String} {f : SourceFile} (h : p.Idle)
    (hp : p.file current f = .ok p') : p'.Idle := by
  obtain ⟨path, -, hlines, hopen⟩ := file_eq_ok_iff.mp hp
  have horderly := h.orderly.lines hlines
  rw [horderly.openAtEnd?] at hopen
  refine horderly.outside ?_
  cases hfunction : p'.function with
  | none => rfl
  | some name => simp [hfunction] at hopen

theorem Idle.setGlobals (h : p.Idle) (hp : p.setGlobals = .ok p') : p'.Idle := by
  refine foldlM_preserves ?_ h hp
  intro q i q' _ hq hset
  obtain ⟨value, -, hset⟩ := bind_eq_ok.mp hset
  obtain rfl := generate_eq_ok hset
  exact ⟨hq.function, hq.locals, hq.blocks, hq.pending⟩

theorem Idle.addInit (h : p.Idle) (hp : p.addInit = .ok p') : p'.Idle := by
  unfold Pass.addInit at hp
  split at hp
  · exact Except.ok.inj hp ▸ h
  · split at hp
    · exact Except.ok.inj hp ▸ h
    · obtain ⟨q, hq, hp⟩ := bind_eq_ok.mp hp
      obtain rfl := Except.ok.inj hp
      have hq : q.Idle := Idle.setGlobals (by exact ⟨h.function, h.locals, h.blocks, h.pending⟩) hq
      exact ⟨hq.function, hq.locals, hq.blocks, hq.pending⟩

theorem Idle.scope_eq (h : p.Idle) : p.scope = p.globalScope := by
  simp [Pass.scope, Pass.globalScope, h.locals]

theorem Orderly.file_eq {current : List String} {f : SourceFile} {path : Path} (h : p.Orderly)
    (hpath : canonical current f.path = .ok path) :
    p.file current f = (sourceLines f.text).foldlM (fun p l => p.line f path l) p >>= fun q =>
      if q.function.isSome then
        .error (.c
          { fault := .unterminatedFunction, location := some { file := f.name, line := 0 } })
      else .ok q := by
  rw [Pass.file, hpath, ok_bind]
  cases hlines : (sourceLines f.text).foldlM (fun p l => p.line f path l) p with
  | error e => rfl
  | ok q =>
    rw [ok_bind, ok_bind, (h.lines hlines).openAtEnd?]
    cases q.function <;> rfl

end Pass

/-- Before any line of any file that is compiled, nothing is open if no function is: no block, no
`if` that waits for its `else`, and no local that a statement would see. So a file whose lines all
compile is refused at its end just when its last function is still open, and for no other fault. -/
theorem flow_idle_outside_functions (current : List String) {constants : NameTable Number}
    {allocation : Allocation} {start p : Pass} (before : List SourceFile) (f : SourceFile)
    {path : Path} (hstart : Pass.addInit { constants, allocation } = .ok start)
    (hbefore : before.foldlM (Pass.file current) start = .ok p)
    (hpath : canonical current f.path = .ok path) :
    (∀ ls q, ls <+: sourceLines f.text → ls.foldlM (fun p l => p.line f path l) p = .ok q →
      q.function = none →
        q.blocks = [] ∧ q.pendingEnd = none ∧ q.locals = [] ∧ q.scope = q.globalScope) ∧
    (p.file current f = (sourceLines f.text).foldlM (fun p l => p.line f path l) p >>= fun q =>
      if q.function.isSome then
        .error (.c
          { fault := .unterminatedFunction, location := some { file := f.name, line := 0 } })
      else .ok q) ∧
    ∀ q, (sourceLines f.text).foldlM (fun p l => p.line f path l) p = .ok q →
      ((∃ e, p.file current f = .error e) ↔
        ∃ name, q.function = some name ∧ (q.functions.getLast?).map Prod.fst = some name) := by
  have hidle : start.Idle := Pass.Idle.addInit ⟨rfl, rfl, rfl, rfl⟩ hstart
  have horderly : p.Orderly :=
    (foldlM_preserves (fun _ _ _ _ h hp => Pass.Idle.file h hp) hidle hbefore).orderly
  refine ⟨?_, horderly.file_eq hpath, ?_⟩
  · intro ls q _ hlines hnone
    have hq := (horderly.lines hlines).outside hnone
    exact ⟨hq.blocks, hq.pending, hq.locals, hq.scope_eq⟩
  · intro q hlines
    rw [horderly.file_eq hpath, hlines, ok_bind]
    cases hfunction : q.function with
    | none => simp
    | some name => simpa using (horderly.lines hlines).inside name hfunction

/-- An `if` at the end of a function, and a function without an end. -/
def blinkSource : SourceFile := .ofText (.ofText "blink.c")
  "void Update() \x7b
  unsigned char i = 1;
  if (i == 1) \x7b
    i = 0;
  \x7d
\x7d"

def openSource : SourceFile := .ofText (.ofText "open.c")
  "void Draw() \x7b
  if (1 == 1) \x7b"

def emptyPass : Pass := { constants := [], allocation := { next := 0x40 } }

/-- The brace behind the `if` ends the function and leaves nothing open. The other file ends inside
two blocks, and is refused for the function. -/
theorem blink_idle_open_refused :
    (∃ q, (sourceLines blinkSource.text).foldlM
        (fun (p : Pass) l => p.line blinkSource ⟨.root, ["blink.c"]⟩ l) emptyPass = .ok q ∧
      q.function = none ∧ q.functions.map Prod.fst = ["Update"] ∧ q.blocks = [] ∧
      q.pendingEnd = none ∧ q.locals = [] ∧ q.scope = q.globalScope) ∧
    ∃ q, (sourceLines openSource.text).foldlM
        (fun (p : Pass) l => p.line openSource ⟨.root, ["open.c"]⟩ l) emptyPass = .ok q ∧
      q.function = some "Draw" ∧ q.blocks.length = 1 ∧
      emptyPass.file [] openSource = .error (.c
        { fault := .unterminatedFunction, location := some { file := "open.c", line := 0 } }) := by
  have hstart : Pass.addInit emptyPass = .ok emptyPass := rfl
  constructor
  · have hrun : ((sourceLines blinkSource.text).foldlM
        (fun (p : Pass) l => p.line blinkSource ⟨.root, ["blink.c"]⟩ l) emptyPass).toOption.map
          (fun q => (q.function, q.functions.map Prod.fst)) = some (none, ["Update"]) := by
      decide +kernel
    obtain ⟨q, hq, hfacts⟩ := Option.map_eq_some_iff.mp hrun
    obtain ⟨hfunction, hfunctions⟩ := Prod.mk.inj hfacts
    have hq := eq_ok_of_toOption hq
    obtain ⟨hidle, -⟩ := flow_idle_outside_functions [] [] blinkSource hstart rfl
      (eq_ok_of_toOption (a := ⟨.root, ["blink.c"]⟩) (by decide +kernel))
    exact ⟨q, hq, hfunction, hfunctions, hidle _ q (List.prefix_refl _) hq hfunction⟩
  · have hrun : ((sourceLines openSource.text).foldlM
        (fun (p : Pass) l => p.line openSource ⟨.root, ["open.c"]⟩ l) emptyPass).toOption.map
          (fun q => (q.function, q.blocks.length)) = some (some "Draw", 1) := by
      decide +kernel
    obtain ⟨q, hq, hfacts⟩ := Option.map_eq_some_iff.mp hrun
    obtain ⟨hfunction, hblocks⟩ := Prod.mk.inj hfacts
    have hq := eq_ok_of_toOption hq
    obtain ⟨-, hfile, -⟩ := flow_idle_outside_functions [] [] openSource hstart rfl
      (eq_ok_of_toOption (a := ⟨.root, ["open.c"]⟩) (by decide +kernel))
    refine ⟨q, hq, hfunction, hblocks, ?_⟩
    rw [hfile, hq, ok_bind, hfunction]
    rfl

end Toolchain6502.C
