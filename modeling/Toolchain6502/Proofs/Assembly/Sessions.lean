import Toolchain6502.Assembly.Listing
import Toolchain6502.Proofs.Assembly.Walks

namespace Toolchain6502.Assembly

open Files Source

inductive Input where
  | text (text : String)
  | traced (unit : Traced)
  | file (path : Path)

inductive Call where
  | define (name : String) (value : Int)
  | assemble (input : Input)

def Call.isDefinition : Call → Bool
  | .define _ _ => true
  | .assemble _ => false

def Input.content (t : Tree) : Input → Except Failure String
  | .text cs => .ok cs
  | .traced unit => .ok unit.text
  | .file path => do
    let unit ← expandFile t [] path
    return unit.text

def Input.statements (t : Tree) (i : Input) : Except Failure (List Statement) := do
  let text ← i.content t
  failWith ReadFailure.toFailure (readSource mergedName text)

/-- What a session shows of the units that it was given. -/
structure Output where
  code : List UInt8
  labels : List (String × Nat)
  symbols : List (String × Nat)
  lineMap : List Int
  listing : String

namespace Session

def assembleInput (t : Tree) (s : Session) : Input → Except Failure (List UInt8) × Session
  | .text cs => s.assembleText cs
  | .traced unit => s.assembleTraced unit
  | .file path => s.assembleFile t path

def perform (t : Tree) (s : Session) : Call → Session
  | .define name value => s.define name value
  | .assemble i => (s.assembleInput t i).2

def after (t : Tree) (s : Session) (calls : List Call) : Session := calls.foldl (perform t) s

/-- A session was started at an origin and has had some calls since. -/
def Reached (t : Tree) (origin : Int) (calls : List Call) (s : Session) : Prop :=
  ∃ first, start origin = .ok first ∧ s = first.after t calls

def output (s : Session) : Output where
  code := s.image.code
  labels := s.image.labels
  symbols := s.image.symbols.values
  lineMap := s.image.lineMap
  listing := s.image.listing

def resultOf (s : Session) (r : Except Failure (List Statement)) :
    Except Failure (List UInt8) := do
  let statements ← r
  let image ← failWith .assembly (Assembly.assemble s.origin s.predefined statements)
  return image.code

/-- The generator that is left. Statements that cannot be assembled leave the predefined symbols. -/
def generatorAfter (s : Session) : Except Failure (List Statement) → Generator
  | .error _ => s.toGenerator
  | .ok statements =>
    match Assembly.assemble s.origin s.predefined statements with
    | .ok image => { s.toGenerator with pc := s.origin + image.code.length, image }
    | .error _ => s.reset

section

variable (t : Tree) (s : Session)

theorem assembleText_eq_after (text : String) :
    let r := failWith ReadFailure.toFailure (readSource mergedName text)
    s.assembleText text = (s.resultOf r, { s with toGenerator := s.generatorAfter r }) := by
  rw [assembleText_eq]
  unfold resultOf generatorAfter
  cases readSource mergedName text with
  | error e => rfl
  | ok ss =>
    cases h : Assembly.assemble s.origin s.predefined ss with
    | error d => simp [failWith, h]
    | ok image => simp [failWith, h]

theorem assembleInput_eq (i : Input) :
    ∃ expanded, s.assembleInput t i = (s.resultOf (i.statements t),
      { toGenerator := s.generatorAfter (i.statements t), expanded }) := by
  have htraced (unit : Traced) := assembleText_eq_after { s with expanded := some unit } unit.text
  cases i with
  | text cs => exact ⟨s.expanded, s.assembleText_eq_after cs⟩
  | traced unit => exact ⟨some unit, htraced unit⟩
  | file path =>
    simp only [assembleInput, assembleFile, Input.statements, Input.content]
    cases expandFile t [] path with
    | error e => exact ⟨s.expanded, rfl⟩
    | ok unit => exact ⟨some unit, htraced unit⟩

theorem assembleInput_result (i : Input) :
    (s.assembleInput t i).1 = s.resultOf (i.statements t) := by
  obtain ⟨expanded, h⟩ := assembleInput_eq t s i
  rw [h]

theorem assembleInput_generator (i : Input) :
    (s.assembleInput t i).2.toGenerator = s.generatorAfter (i.statements t) := by
  obtain ⟨expanded, h⟩ := assembleInput_eq t s i
  rw [h]

theorem generatorAfter_start (r : Except Failure (List Statement)) :
    (s.generatorAfter r).origin = s.origin ∧ (s.generatorAfter r).predefined = s.predefined := by
  unfold generatorAfter
  split
  · exact ⟨rfl, rfl⟩
  · split <;> exact ⟨rfl, rfl⟩

@[simp] theorem assembleInput_origin (i : Input) : (s.assembleInput t i).2.origin = s.origin := by
  rw [assembleInput_generator]
  exact (s.generatorAfter_start _).1

@[simp] theorem assembleInput_predefined (i : Input) :
    (s.assembleInput t i).2.predefined = s.predefined := by
  rw [assembleInput_generator]
  exact (s.generatorAfter_start _).2

end

/-- Two sessions that start their next unit alike. -/
structure Alike (s r : Session) : Prop where
  origin : s.origin = r.origin
  predefined : s.predefined = r.predefined

theorem Alike.define {s r : Session} (h : s.Alike r) (name : String) (value : Int) :
    (s.define name value).Alike (r.define name value) :=
  ⟨h.origin, congrArg (Symbols.predefine · name value) h.predefined⟩

theorem Alike.assembled {s r : Session} (h : s.Alike r) (t : Tree) (i : Input) :
    (s.assembleInput t i).2.Alike r :=
  ⟨by simpa using h.origin, by simpa using h.predefined⟩

/-- A session goes on like one that is only given the definitions. -/
theorem Alike.after {s r : Session} (h : s.Alike r) (t : Tree) (calls : List Call) :
    (s.after t calls).Alike (r.after t (calls.filter Call.isDefinition)) := by
  induction calls generalizing s r with
  | nil => exact h
  | cons call calls ih =>
    cases call with
    | define name value => exact ih (h.define name value)
    | assemble i => exact ih (h.assembled t i)

theorem Alike.result {s r : Session} (h : s.Alike r) (t : Tree) (i : Input) :
    (s.assembleInput t i).1 = (r.assembleInput t i).1 := by
  rw [assembleInput_result, assembleInput_result]
  unfold resultOf
  rw [h.origin, h.predefined]

/-- A unit that is assembled leaves nothing of the image before it. -/
theorem Alike.image {s r : Session} (h : s.Alike r) {t : Tree} {i : Input} {code : List UInt8}
    (hok : (s.assembleInput t i).1 = .ok code) :
    (s.assembleInput t i).2.image = (r.assembleInput t i).2.image := by
  rw [assembleInput_result] at hok
  obtain ⟨ss, hss, -⟩ := bind_eq_ok.mp hok
  rw [assembleInput_generator, assembleInput_generator, hss]
  simp only [generatorAfter, h.origin, h.predefined]
  cases Assembly.assemble r.origin r.predefined ss with
  | ok image => rfl
  | error d => simp only [Generator.reset, h.predefined]

/-- Units on one session do not influence each other. A unit gives, after any calls, what it gives
on a new session at the same origin that is only given the definitions among them; and where it is
assembled, both sessions show the same. -/
theorem assembleInput_like_fresh {t : Tree} {origin : Int} {calls : List Call} {s fresh : Session}
    (h : s.Reached t origin calls)
    (hfresh : fresh.Reached t origin (calls.filter Call.isDefinition)) (i : Input) :
    (s.assembleInput t i).1 = (fresh.assembleInput t i).1 ∧
    ∀ code, (s.assembleInput t i).1 = .ok code →
      (s.assembleInput t i).2.output = (fresh.assembleInput t i).2.output := by
  obtain ⟨first, hfirst, rfl⟩ := h
  obtain ⟨first', hfirst', rfl⟩ := hfresh
  obtain rfl : first = first' := Except.ok.inj (hfirst.symm.trans hfirst')
  have halike : (first.after t calls).Alike (first.after t (calls.filter Call.isDefinition)) :=
    Alike.after ⟨rfl, rfl⟩ t calls
  refine ⟨halike.result t i, ?_⟩
  intro code hok
  unfold output
  rw [halike.image hok]

def mixedCalls : List Call := [
  .assemble (.text "Init: NOP\n"), .define "VRAM" 0x2000, .assemble (.text "XYZ\n"),
  .assemble (.text "JMP nowhere\n")]

theorem mixedCalls_like_fresh : ∃ s fresh : Session,
    s.Reached {} 0x200 mixedCalls ∧ fresh.Reached {} 0x200 [.define "VRAM" 0x2000] ∧
    (fresh.assembleInput {} (.text "Init: STA VRAM\n")).1 = .ok [0x8D, 0x00, 0x20] ∧
    (s.assembleInput {} (.text "Init: STA VRAM\n")).2.output =
      (fresh.assembleInput {} (.text "Init: STA VRAM\n")).2.output := by
  have hstart : start 0x200 = .ok { origin := 0x200 } := rfl
  have h : Reached {} 0x200 mixedCalls _ := ⟨_, hstart, rfl⟩
  have hfresh : Reached {} 0x200 [.define "VRAM" 0x2000] _ := ⟨_, hstart, rfl⟩
  obtain ⟨hresult, houtput⟩ := assembleInput_like_fresh h hfresh (.text "Init: STA VRAM\n")
  have hcode := eq_ok_of_toOption (x := (assembleInput {} (after {} { origin := 0x200 }
    [.define "VRAM" 0x2000]) (.text "Init: STA VRAM\n")).1) (a := [0x8D, 0x00, 0x20])
    (by decide +kernel)
  exact ⟨_, _, h, hfresh, hcode, houtput _ (hresult.trans hcode)⟩

structure Cleared (s : Session) : Prop where
  code : s.output.code = []
  lineMap : s.output.lineMap = []
  labels : s.output.labels = []
  symbols : s.output.symbols = s.predefined.values

theorem cleared_congr {s r : Session} (himage : r.image = s.image)
    (hpredefined : r.predefined = s.predefined) : r.Cleared ↔ s.Cleared := by
  have houtput : r.output = s.output := by rw [output, output, himage]
  constructor
  · intro h
    exact ⟨houtput ▸ h.code, houtput ▸ h.lineMap, houtput ▸ h.labels,
      hpredefined ▸ houtput ▸ h.symbols⟩
  · intro h
    exact ⟨houtput ▸ h.code, houtput ▸ h.lineMap, houtput ▸ h.labels,
      by rw [hpredefined, houtput, h.symbols]⟩

theorem isLabel_of_mem_predefine {table : Symbols} (h : ∀ e ∈ table, e.isLabel = false)
    (name : String) (value : Int) : ∀ e ∈ table.predefine name value, e.isLabel = false := by
  intro e he
  unfold Symbols.predefine at he
  split at he
  · obtain ⟨e', he', rfl⟩ := List.mem_map.mp he
    split
    · rfl
    · exact h e' he'
  · rcases List.mem_append.mp he with he | he
    · exact h e he
    · rw [List.mem_singleton.mp he]
      rfl

theorem isLabel_of_mem_after {s : Session} (h : ∀ e ∈ s.predefined, e.isLabel = false) (t : Tree)
    (calls : List Call) : ∀ e ∈ (s.after t calls).predefined, e.isLabel = false := by
  induction calls generalizing s with
  | nil => exact h
  | cons call calls ih =>
    cases call with
    | define name value => exact ih (isLabel_of_mem_predefine h name value)
    | assemble i => exact ih (by simpa [perform] using h)

/-- No predefined symbol is a label. -/
theorem Reached.isLabel_eq_false {t : Tree} {origin : Int} {calls : List Call} {s : Session}
    (h : s.Reached t origin calls) : ∀ e ∈ s.predefined, e.isLabel = false := by
  obtain ⟨first, hfirst, rfl⟩ := h
  apply isLabel_of_mem_after
  unfold start at hfirst
  split at hfirst
  · simp [← Except.ok.inj hfirst]
  · simp at hfirst

theorem Reached.cleared_of_image {t : Tree} {origin : Int} {calls : List Call} {s r : Session}
    (h : s.Reached t origin calls) (hpredefined : r.predefined = s.predefined)
    (himage : r.image = { symbols := s.predefined }) : r.Cleared := by
  have hlabels : s.predefined.filter Symbol.isLabel = [] := by
    simpa using h.isLabel_eq_false
  constructor
  · simp [output, himage]
  · simp [output, himage]
  · simp [output, himage, Image.labels, Symbols.labels, hlabels, Symbols.values]
  · simp [output, himage, hpredefined]

/-- What a unit that is at fault leaves behind. Once its statements are read, nothing is left but
the predefined symbols; before, the session shows what it showed. -/
theorem failed_input_clears_iff {t : Tree} {origin : Int} {calls : List Call} {s : Session}
    (h : s.Reached t origin calls) {i : Input} {d : Diagnostic}
    (hfail : (s.assembleInput t i).1 = .error (.assembly d)) :
    ((s.assembleInput t i).2.Cleared ↔ (∃ ss, i.statements t = .ok ss) ∨ s.Cleared) ∧
    ((∃ ss, i.statements t = .ok ss) ∨ (s.assembleInput t i).2.output = s.output) := by
  have hpredefined := assembleInput_predefined t s i
  have hleft := congrArg Generator.image (assembleInput_generator t s i)
  cases hss : i.statements t with
  | error e =>
    simp only [hss, generatorAfter] at hleft
    simp [cleared_congr hleft hpredefined, output, hleft]
  | ok ss =>
    have hcleared : (s.assembleInput t i).2.Cleared := by
      rw [assembleInput_result, hss, resultOf, ok_bind] at hfail
      cases hassemble : Assembly.assemble s.origin s.predefined ss with
      | ok image => simp [hassemble, failWith] at hfail
      | error d' =>
        simp only [hss, generatorAfter, hassemble] at hleft
        exact h.cleared_of_image hpredefined hleft
    simp [hcleared]

def fault? : Except Failure α → Option Diagnostic
  | .error (.assembly d) => some d
  | _ => none

theorem exists_of_fault? {r : Except Failure α} (h : (fault? r).isSome = true) :
    ∃ d, r = .error (.assembly d) := by
  unfold fault? at h
  split at h
  · exact ⟨_, rfl⟩
  · simp at h

def usedSession : Session :=
  after {} { origin := 0x200 } [.define "VRAM" 0x2000, .assemble (.text "Init: NOP\n")]

theorem usedSession_cleared : ∃ d : Diagnostic,
    usedSession.Reached {} 0x200 [.define "VRAM" 0x2000, .assemble (.text "Init: NOP\n")] ∧
    ¬usedSession.Cleared ∧
    (usedSession.assembleInput {} (.text "RTS\nJMP nowhere\n")).1 = .error (.assembly d) ∧
    (usedSession.assembleInput {} (.text "RTS\nJMP nowhere\n")).2.Cleared := by
  have h : usedSession.Reached {} 0x200
      [.define "VRAM" 0x2000, .assemble (.text "Init: NOP\n")] := ⟨_, rfl, rfl⟩
  have hshown : usedSession.output.code = [0xEA] := by decide +kernel
  obtain ⟨d, hfail⟩ : ∃ d, (usedSession.assembleInput {} (.text "RTS\nJMP nowhere\n")).1 =
      .error (.assembly d) := exists_of_fault? (by decide +kernel)
  have hread : ∃ ss, (Input.text "RTS\nJMP nowhere\n").statements {} = .ok ss :=
    exists_eq_ok_of_isSome (by decide +kernel)
  refine ⟨d, h, ?_, hfail, (failed_input_clears_iff h hfail).1.mpr (.inl hread)⟩
  intro hcleared
  exact absurd (hshown.symm.trans hcleared.code) (by simp)

/-- A text that cannot be read leaves the code of the unit before it. -/
theorem usedSession_keeps_code : ∃ d : Diagnostic,
    usedSession.Reached {} 0x200 [.define "VRAM" 0x2000, .assemble (.text "Init: NOP\n")] ∧
    (usedSession.assembleInput {} (.text "XYZ\n")).1 = .error (.assembly d) ∧
    (usedSession.assembleInput {} (.text "XYZ\n")).2.output.code = [0xEA] ∧
    ¬(usedSession.assembleInput {} (.text "XYZ\n")).2.Cleared := by
  have hkept : (usedSession.assembleInput {} (.text "XYZ\n")).2.output.code = [0xEA] := by
    decide +kernel
  obtain ⟨d, hfail⟩ : ∃ d, (usedSession.assembleInput {} (.text "XYZ\n")).1 =
      .error (.assembly d) := exists_of_fault? (by decide +kernel)
  refine ⟨d, ⟨_, rfl, rfl⟩, hfail, hkept, ?_⟩
  intro hcleared
  exact absurd (hkept.symm.trans hcleared.code) (by simp)

end Session

end Toolchain6502.Assembly
