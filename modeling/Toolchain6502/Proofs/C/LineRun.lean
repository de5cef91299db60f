import Mathlib.Logic.Relation
import Mathlib.Tactic.Common
import Toolchain6502.C.Emission
import Toolchain6502.Proofs.Cpu.State

namespace Toolchain6502.C

open Cpu

variable {program code : Code} {line : Nat} {name : String} {m : Mnemonic} {operand : CodeOperand}

/-- A line of the code and the state of the machine before it. -/
structure Point where
  line : Nat
  state : State

def CodeOperand.place (s : State) : CodeOperand → Place
  | none | label _ => .implied
  | immediate value => .value (BitVec.ofInt 8 value)
  | zeroPage address | absolute address => .cell (BitVec.ofInt 16 address)
  | absoluteY address => .cell (BitVec.ofInt 16 address + s.y.setWidth 16)

def CodeOperand.isLabel : CodeOperand → Bool
  | label _ => true
  | _ => false

def lineOf? (code : Code) (name : String) : Option Nat := code.findIdx? (· == .label name)

/-- One line. The run stops at the end of the code and at an instruction that ends a routine. -/
def advance (code : Code) (p : Point) : Option Point :=
  match code[p.line]? with
  | some (.label _) | some .empty => some ⟨p.line + 1, p.state⟩
  | some (.instruction m (.label name)) =>
    match if m = .jmp then some true else p.state.branch? m with
    | some true => (lineOf? code name).map fun target => ⟨target, p.state⟩
    | some false => some ⟨p.line + 1, p.state⟩
    | none => none
  | some (.instruction m operand) =>
    (p.state.perform m (operand.place p.state)).map fun s => ⟨p.line + 1, s⟩
  | some (.written _ _) | none => none

/-- One line that leaves the memory outside some cells alone. -/
def Step (code : Code) (writable : Word → Prop) (p q : Point) : Prop :=
  advance code p = some q ∧ ∀ b, ¬writable b → q.state.memory b = p.state.memory b

abbrev Runs (code : Code) (writable : Word → Prop) : Point → Point → Prop :=
  Relation.ReflTransGen (Step code writable)

section
variable {code : Code} {writable : Word → Prop} {p q : Point}

/-- A run leaves the memory outside some cells alone. -/
theorem Runs.memory (h : Runs code writable p q) {b : Word} (hb : ¬writable b) :
    q.state.memory b = p.state.memory b := by
  induction h with
  | refl => rfl
  | tail _ hstep ih => rw [hstep.2 b hb, ih]

theorem Runs.mono {wider : Word → Prop} (h : Runs code writable p q)
    (hwider : ∀ b, writable b → wider b) : Runs code wider p q :=
  Relation.ReflTransGen.mono (fun _ _ hs => ⟨hs.1, fun b hb => hs.2 b fun hw => hb (hwider b hw)⟩) _ _ h

theorem Runs.unique {q' : Point} (h : Runs code writable p q) (h' : Runs code writable p q')
    (hq : advance code q = none) (hq' : advance code q' = none) : q = q' := by
  induction h using Relation.ReflTransGen.head_induction_on with
  | refl =>
    rcases h'.cases_head with rfl | ⟨r, hr, -⟩
    · rfl
    · have := hr.1
      simp [hq] at this
  | head hstep _ ih =>
    rcases h'.cases_head with rfl | ⟨r, hr, hrest⟩
    · have := hstep.1
      simp [hq'] at this
    · obtain rfl := Option.some.inj (hstep.1.symm.trans hr.1)
      exact ih hrest

end

/-- A run with the points that it passes before its end. -/
inductive Trace (code : Code) (writable : Word → Prop) : Point → List Point → Point → Prop
  | done (p : Point) : Trace code writable p [] p
  | step {p q r : Point} {passed : List Point} (h : Step code writable p q)
      (hrest : Trace code writable q passed r) : Trace code writable p (p :: passed) r

/-- A run that keeps to a range of lines until it ends. -/
structure Crosses (code : Code) (writable : Word → Prop) (low high : Nat) (p : Point)
    (passed : List Point) (q : Point) : Prop where
  trace : Trace code writable p passed q
  within : ∀ r ∈ passed, low ≤ r.line ∧ r.line < high

namespace Crosses

variable {code : Code} {writable : Word → Prop} {low high : Nat} {p q r : Point}
  {passed later : List Point}

theorem runs (h : Crosses code writable low high p passed q) : Runs code writable p q := by
  obtain ⟨htrace, -⟩ := h
  induction htrace with
  | done p => exact .refl
  | step h _ ih => exact .head h ih

theorem done (p : Point) : Crosses code writable low high p [] p :=
  ⟨.done p, by simp⟩

theorem step (h : Step code writable p q) (hlow : low ≤ p.line) (hhigh : p.line < high)
    (hrest : Crosses code writable low high q passed r) :
    Crosses code writable low high p (p :: passed) r :=
  ⟨.step h hrest.trace, List.forall_mem_cons.mpr ⟨⟨hlow, hhigh⟩, hrest.within⟩⟩

theorem trans (h : Crosses code writable low high p passed q)
    (h' : Crosses code writable low high q later r) :
    Crosses code writable low high p (passed ++ later) r := by
  obtain ⟨htrace, hwithin⟩ := h
  induction htrace with
  | done p => exact h'
  | step hstep _ ih =>
    obtain ⟨⟨hlow, hhigh⟩, hwithin⟩ := List.forall_mem_cons.mp hwithin
    exact step hstep hlow hhigh (ih h' hwithin)

theorem widen (h : Crosses code writable low high p passed q) {low' high' : Nat}
    (hlow : low' ≤ low) (hhigh : high ≤ high') : Crosses code writable low' high' p passed q := by
  refine ⟨h.trace, fun r hr => ?_⟩
  have := h.within r hr
  omega

theorem mono (h : Crosses code writable low high p passed q) {wider : Word → Prop}
    (hwider : ∀ b, writable b → wider b) : Crosses code wider low high p passed q := by
  obtain ⟨htrace, hwithin⟩ := h
  induction htrace with
  | done p => exact .done p
  | step hstep _ ih =>
    obtain ⟨⟨hlow, hhigh⟩, hwithin⟩ := List.forall_mem_cons.mp hwithin
    exact step ⟨hstep.1, fun b hb => hstep.2 b fun hw => hb (hwider b hw)⟩ hlow hhigh (ih hwithin)

theorem countP_eq_zero (h : Crosses code writable low high p passed q) {k : Nat}
    (hk : k < low ∨ high ≤ k) : passed.countP (·.line == k) = 0 := by
  rw [List.countP_eq_zero]
  intro r hr heq
  have := h.within r hr
  have := eq_of_beq heq
  omega

end Crosses

def CodeAt (program : Code) (line : Nat) (code : Code) : Prop :=
  ∀ i l, code[i]? = some l → program[line + i]? = some l

theorem codeAt_self (code : Code) : CodeAt code 0 code := by
  intro i l h
  simpa using h

theorem CodeAt.head {l : CodeLine} (h : CodeAt program line (l :: code)) :
    program[line]? = some l := by
  simpa using h 0 l rfl

theorem CodeAt.tail {l : CodeLine} (h : CodeAt program line (l :: code)) :
    CodeAt program (line + 1) code := by
  intro i l' hl
  have := h (i + 1) l' (by simpa using hl)
  rwa [← Nat.add_assoc, Nat.add_right_comm] at this

theorem CodeAt.left {first second : Code} (h : CodeAt program line (first ++ second)) :
    CodeAt program line first := by
  intro i l hl
  apply h
  rw [List.getElem?_append_left (List.getElem?_eq_some_iff.mp hl).1]
  exact hl

theorem CodeAt.take (h : CodeAt program line code) (k : Nat) :
    CodeAt program line (code.take k) := by
  have hsplit : CodeAt program line (code.take k ++ code.drop k) := by
    rwa [List.take_append_drop]
  exact hsplit.left

theorem CodeAt.right {first second : Code} (h : CodeAt program line (first ++ second)) :
    CodeAt program (line + first.length) second := by
  intro i l hl
  rw [Nat.add_assoc]
  apply h
  rw [List.getElem?_append_right (by omega)]
  simpa using hl

theorem CodeAt.append_left (h : CodeAt program line code) (more : Code) :
    CodeAt (program ++ more) line code := by
  intro i l hl
  have hprogram := h i l hl
  rw [List.getElem?_append_left (List.getElem?_eq_some_iff.mp hprogram).1]
  exact hprogram

def labelsOf (code : Code) : List String :=
  code.filterMap fun l => match l with
    | .label name => some name
    | _ => none

theorem getElem?_of_lineOf? (h : lineOf? code name = some line) :
    code[line]? = some (.label name) := by
  obtain ⟨hline, hlabel, -⟩ := List.findIdx?_eq_some_iff_getElem.mp h
  rw [List.getElem?_eq_getElem hline]
  simpa using hlabel

/-- In a program that defines no label twice, a label stands for the line that defines it. -/
theorem lineOf?_eq (hdistinct : (labelsOf program).Nodup) (h : program[line]? = some (.label name)) :
    lineOf? program name = some line := by
  induction program generalizing line with
  | nil => simp at h
  | cons l rest ih =>
    cases line with
    | zero =>
      obtain rfl : l = .label name := by simpa using h
      simp [lineOf?, List.findIdx?_cons]
    | succ line =>
      have hmem : CodeLine.label name ∈ rest := List.mem_of_getElem? (by simpa using h)
      -- the first line cannot define the name as well
      have hne : l ≠ .label name := by
        rintro rfl
        simp only [labelsOf, List.filterMap_cons, List.nodup_cons] at hdistinct
        exact hdistinct.1 (List.mem_filterMap.mpr ⟨_, hmem, rfl⟩)
      have hrest : (labelsOf rest).Nodup := by
        refine hdistinct.sublist ?_
        exact (List.sublist_cons_self l rest).filterMap _
      have := ih hrest (by simpa using h)
      simp only [lineOf?] at this ⊢
      simp [List.findIdx?_cons, hne, this]

section
variable {program : Code} {writable : Word → Prop} {line line' : Nat} {s s' : State}

theorem Step.label (h : program[line]? = some (.label name)) :
    Step program writable ⟨line, s⟩ ⟨line + 1, s⟩ :=
  ⟨by simp [advance, h], fun _ _ => rfl⟩

theorem Step.jump (hdistinct : (labelsOf program).Nodup)
    (h : program[line]? = some (toLabel .jmp name)) (htarget : program[line']? = some (.label name)) :
    Step program writable ⟨line, s⟩ ⟨line', s⟩ := by
  unfold toLabel at h
  exact ⟨by simp [advance, h, lineOf?_eq hdistinct htarget], fun _ _ => rfl⟩

theorem Step.branch (hdistinct : (labelsOf program).Nodup)
    (h : program[line]? = some (toLabel m name)) (htaken : s.branch? m = some true)
    (htarget : program[line']? = some (.label name)) :
    Step program writable ⟨line, s⟩ ⟨line', s⟩ := by
  have hm : m ≠ .jmp := by
    rintro rfl
    simp [State.branch?] at htaken
  unfold toLabel at h
  exact ⟨by simp [advance, h, hm, htaken, lineOf?_eq hdistinct htarget], fun _ _ => rfl⟩

theorem Step.fall (h : program[line]? = some (toLabel m name)) (htaken : s.branch? m = some false) :
    Step program writable ⟨line, s⟩ ⟨line + 1, s⟩ := by
  have hm : m ≠ .jmp := by
    rintro rfl
    simp [State.branch?] at htaken
  unfold toLabel at h
  exact ⟨by simp [advance, h, hm, htaken], fun _ _ => rfl⟩

theorem Step.instruction (h : program[line]? = some (.instruction m operand))
    (hlabel : operand.isLabel = false) (hperform : s.perform m (operand.place s) = some s')
    (hwritten : ∀ b, written? m (operand.place s) = some b → writable b) :
    Step program writable ⟨line, s⟩ ⟨line + 1, s'⟩ := by
  refine ⟨?_, fun b hb => ?_⟩
  · cases operand <;> simp_all [advance, CodeOperand.isLabel]
  · exact State.perform_memory hperform fun hb' => hb (hwritten b hb')

theorem Runs.label (h : program[line]? = some (.label name)) :
    Runs program writable ⟨line, s⟩ ⟨line + 1, s⟩ :=
  .single (Step.label h)

theorem Runs.instruction (h : program[line]? = some (.instruction m operand))
    (hlabel : operand.isLabel = false) (hperform : s.perform m (operand.place s) = some s')
    (hwritten : ∀ b, written? m (operand.place s) = some b → writable b) :
    Runs program writable ⟨line, s⟩ ⟨line + 1, s'⟩ :=
  .single (Step.instruction h hlabel hperform hwritten)

theorem Runs.jump (hdistinct : (labelsOf program).Nodup)
    (h : program[line]? = some (toLabel .jmp name)) (htarget : program[line']? = some (.label name)) :
    Runs program writable ⟨line, s⟩ ⟨line', s⟩ :=
  .single (Step.jump hdistinct h htarget)

def straight (s : State) : Code → Option State
  | [] => some s
  | .instruction m operand :: rest =>
    if operand.isLabel then none
    else (s.perform m (operand.place s)).bind fun s => straight s rest
  | _ => none

def stores (s : State) : Code → List Word
  | .instruction m operand :: rest =>
    (written? m (operand.place s)).toList ++
      ((s.perform m (operand.place s)).map fun s => stores s rest).getD []
  | _ => []

theorem straight_cons {rest : Code} {t : State} (hlabel : operand.isLabel = false)
    (h : s.perform m (operand.place s) = some t) :
    straight s (.instruction m operand :: rest) = straight t rest := by
  simp [straight, hlabel, h]

theorem stores_cons {rest : Code} {t : State} (h : s.perform m (operand.place s) = some t) :
    stores s (.instruction m operand :: rest) =
      (written? m (operand.place s)).toList ++ stores t rest := by
  simp [stores, h]

theorem straight_single (h : operand.isLabel = false) :
    straight s [.instruction m operand] = s.perform m (operand.place s) := by
  cases hperform : s.perform m (operand.place s) <;> simp [straight, h, hperform]

theorem stores_single (m : Mnemonic) (operand : CodeOperand) :
    stores s [.instruction m operand] = (written? m (operand.place s)).toList := by
  cases hperform : s.perform m (operand.place s) <;> simp [stores, hperform]

variable (writable) in
theorem Crosses.straight (hcode : CodeAt program line code) (h : straight s code = some s')
    (hstores : ∀ b ∈ stores s code, writable b) :
    ∃ passed, Crosses program writable line (line + code.length) ⟨line, s⟩ passed
        ⟨line + code.length, s'⟩ ∧
      passed.map Point.line = List.range' line code.length := by
  induction code generalizing line s with
  | nil =>
    obtain rfl : s = s' := by simpa [C.straight] using h
    exact ⟨[], .done _, rfl⟩
  | cons l rest ih =>
    cases l with
    | label name => simp [C.straight] at h
    | written m operand => simp [C.straight] at h
    | empty => simp [C.straight] at h
    | instruction m operand =>
      have hlabel : operand.isLabel = false := by
        by_contra hlabel
        simp [C.straight, hlabel] at h
      simp only [C.straight, hlabel, Bool.false_eq_true, if_false] at h
      obtain ⟨s₁, hs₁, hrest⟩ := Option.bind_eq_some_iff.mp h
      simp only [stores, hs₁, Option.map_some, Option.getD_some, List.mem_append] at hstores
      have hstep : Step program writable ⟨line, s⟩ ⟨line + 1, s₁⟩ :=
        .instruction hcode.head hlabel hs₁ fun b hb => hstores b (.inl (by simp [hb]))
      obtain ⟨passed, hpassed, hlines⟩ := ih hcode.tail hrest fun b hb => hstores b (.inr hb)
      rw [Nat.add_right_comm, Nat.add_assoc] at hpassed
      refine ⟨_ :: passed, .step hstep (Nat.le_refl line) (by simp) ?_, ?_⟩
      · exact hpassed.widen (by omega) (by simp)
      · rw [List.map_cons, hlines, List.length_cons, List.range'_succ]

theorem Runs.straight (hcode : CodeAt program line code) (h : straight s code = some s')
    (hstores : ∀ b ∈ stores s code, writable b) :
    Runs program writable ⟨line, s⟩ ⟨line + code.length, s'⟩ := by
  obtain ⟨passed, hpassed, -⟩ := Crosses.straight writable hcode h hstores
  exact hpassed.runs

theorem Runs.append {first second : Code} {s'' : State}
    (h : Runs program writable ⟨line, s⟩ ⟨line + first.length, s'⟩)
    (h' : Runs program writable ⟨line + first.length, s'⟩
      ⟨line + first.length + second.length, s''⟩) :
    Runs program writable ⟨line, s⟩ ⟨line + (first ++ second).length, s''⟩ := by
  rw [List.length_append, ← Nat.add_assoc]
  exact h.trans h'

variable (writable) in
theorem Crosses.quiet (hcode : CodeAt program line code) (h : C.straight s code = some s')
    (hstores : stores s code = []) :
    ∃ passed, Crosses program writable line (line + code.length) ⟨line, s⟩ passed
      ⟨line + code.length, s'⟩ := by
  obtain ⟨passed, hpassed, -⟩ := Crosses.straight writable hcode h (by simp [hstores])
  exact ⟨passed, hpassed⟩

theorem Runs.quiet (hcode : CodeAt program line code) (h : C.straight s code = some s')
    (hstores : stores s code = []) : Runs program writable ⟨line, s⟩ ⟨line + code.length, s'⟩ :=
  Runs.straight hcode h (by simp [hstores])

end

end Toolchain6502.C
