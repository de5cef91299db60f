import Toolchain6502.Proofs.C.Accounts
import Toolchain6502.Proofs.C.Exhaustion
import Toolchain6502.Proofs.C.LineVariables
import Toolchain6502.Proofs.C.ScopeNames

namespace Toolchain6502.C

open Files Source

namespace Block

/-- A block without its labels. -/
def unlabelled : Block → Block
  | thenPart _ _ => thenPart "" ""
  | elsePart _ => elsePart ""
  | whileLoop _ _ => whileLoop "" ""
  | forLoop _ _ step => forLoop "" "" step

/-- What is emitted where a block is closed. -/
def closing : Block → Code
  | thenPart elseLabel endLabel => [toLabel .jmp endLabel, .label elseLabel]
  | elsePart endLabel => [.label endLabel]
  | whileLoop startLabel endLabel => [toLabel .jmp startLabel, .label endLabel]
  | forLoop startLabel endLabel _ => [toLabel .jmp startLabel, .label endLabel]

def step? : Block → Option String
  | forLoop _ _ step => step
  | _ => none

/-- The end that an `else` would move. -/
def pending? : Block → Option String
  | thenPart _ endLabel => some endLabel
  | _ => none

theorem length_closing_unlabelled (b : Block) :
    b.unlabelled.closing.length = b.closing.length := by
  cases b <;> rfl

theorem step?_unlabelled (b : Block) : b.unlabelled.step? = b.step? := by
  cases b <;> rfl

theorem pending?_unlabelled (b : Block) : b.unlabelled.pending?.isSome = b.pending?.isSome := by
  cases b <;> rfl

variable {b b' : Block} (h : b'.unlabelled = b.unlabelled)

include h

theorem length_closing_congr : b'.closing.length = b.closing.length := by
  rw [← length_closing_unlabelled, h, length_closing_unlabelled]

theorem step?_congr : b'.step? = b.step? := by
  rw [← step?_unlabelled, h, step?_unlabelled]

theorem pending?_congr : b'.pending?.isSome = b.pending?.isSome := by
  rw [← pending?_unlabelled, h, pending?_unlabelled]

end Block

def Account.ofLines (count : Nat) : Account := { (0 : Account) with lines := count }

def Account.ofLocal (name : String) : Account := { (0 : Account) with locals := {name} }

def Account.ofFunction (name : String) : Account :=
  { (0 : Account) with functions := {name}, lines := 1 }

namespace Pass

/-- The same names are known and the same blocks are open. -/
structure Alike (p q : Pass) : Prop where
  constants : q.constants = p.constants
  globals : (p.allocation.globals.map Variable.name).Perm (q.allocation.globals.map Variable.name)
  initial : (p.allocation.initializers.map Initializer.expression).Perm
    (q.allocation.initializers.map Initializer.expression)
  declared : p.allocation.declared.Perm q.allocation.declared
  function : q.function = p.function
  locals : q.locals.map Variable.name = p.locals.map Variable.name
  blocks : q.blocks.map Block.unlabelled = p.blocks.map Block.unlabelled
  pending : q.pendingEnd.isSome = p.pendingEnd.isSome

structure Holds (base : Int) (p : Pass) (m : Account) : Prop where
  allocation : p.allocation.Holds base m
  functions : (p.functions.map Prod.fst : Multiset String) = m.functions
  lines : p.emitter.lines.length = m.lines
  settled : p.function = none → p.locals = []

/-- Lines have been emitted, and nothing has been declared. -/
structure Emits (count : Nat) (p p' : Pass) : Prop where
  allocation : p'.allocation = p.allocation
  functions : p'.functions = p.functions
  lines : p'.emitter.lines.length = p.emitter.lines.length + count
  settled : (p.function = none → p.locals = []) → p'.function = none → p'.locals = []

/-- From one state to another one an amount is added, and a computation adds it to every state alike
as long as the sum fits. -/
structure Gains (base : Int) (p p' : Pass) (m amount : Account)
    (run : Pass → Except Failure Pass) : Prop where
  holds : p'.Holds base (m + amount)
  others : ∀ q n, p.Alike q → q.Holds base n → (n + amount).Fits base →
    ∃ q', run q = .ok q' ∧ p'.Alike q' ∧ q'.Holds base (n + amount)

end Pass

theorem isSome_lookup_addresses (vs : List Variable) (name : String) :
    ((vs.map fun v => (v.name, v.address)).lookup name).isSome =
      decide (name ∈ vs.map Variable.name) := by
  rw [Bool.eq_iff_iff, ← not_iff_not, decide_eq_true_iff, ← find?_name_eq_none,
    ← lookup_addresses_eq_none_iff, Option.not_isSome_iff_eq_none]

/-- What the first pass has noted is not changed by code. -/
theorem Allocation.Holds.of_eq {base : Int} {a : Allocation} {m m' : Account} (h : a.Holds base m)
    (hfits : m'.Fits base) (hglobals : m'.globals = m.globals) (hinitial : m'.initial = m.initial)
    (hdeclared : m'.declared = m.declared) (hlocals : m'.locals = m.locals) : a.Holds base m' where
  fits := hfits
  takes := by
    rw [Account.placed, hglobals, hlocals]
    exact h.takes
  globals := h.globals.trans hglobals.symm
  initial := h.initial.trans hinitial.symm
  declared := h.declared.trans hdeclared.symm

namespace Pass

variable {base : Int} {p p' p₁ q r : Pass} {m amount amount' : Account}
  {run run₁ : Pass → Except Failure Pass}

namespace Alike

theorem refl (p : Pass) : p.Alike p := ⟨rfl, .rfl, .rfl, .rfl, rfl, rfl, rfl, rfl⟩

theorem symm (h : p.Alike q) : q.Alike p :=
  ⟨h.constants.symm, h.globals.symm, h.initial.symm, h.declared.symm, h.function.symm,
    h.locals.symm, h.blocks.symm, h.pending.symm⟩

theorem trans (h : p.Alike q) (h' : q.Alike r) : p.Alike r :=
  ⟨h'.constants.trans h.constants, h.globals.trans h'.globals, h.initial.trans h'.initial,
    h.declared.trans h'.declared, h'.function.trans h.function, h'.locals.trans h.locals,
    h'.blocks.trans h.blocks, h'.pending.trans h.pending⟩

theorem withEmitter (h : p.Alike q) (e e' : Emitter) :
    Alike { p with emitter := e } { q with emitter := e' } := { h with }

theorem openBlock (h : p.Alike q) {b b' : Block} (hb : b'.unlabelled = b.unlabelled) :
    (p.openBlock b).Alike (q.openBlock b') :=
  { h with blocks := by simp [Pass.openBlock, hb, h.blocks] }

theorem globalScope (h : p.Alike q) : p.globalScope.Alike q.globalScope where
  constants := h.constants
  names name := by
    simp only [Scope.address?, Pass.globalScope, isSome_lookup_addresses, h.globals.mem_iff]

theorem mem_names (h : p.Alike q) (name : String) :
    name ∈ (q.allocation.globals ++ q.locals).map Variable.name ↔
      name ∈ (p.allocation.globals ++ p.locals).map Variable.name := by
  simp only [List.map_append, List.mem_append, h.globals.mem_iff, h.locals]

theorem scope (h : p.Alike q) : p.scope.Alike q.scope where
  constants := h.constants
  names name := by
    simp only [Scope.address?, Pass.scope, isSome_lookup_addresses, h.mem_names]

end Alike

theorem Holds.emits {count : Nat} (h : p.Holds base m) (he : p.Emits count p') :
    p'.Holds base (m + .ofLines count) where
  allocation := by
    rw [he.allocation]
    exact h.allocation.of_eq (h.allocation.fits.add rfl rfl rfl) (add_zero _) (add_zero _)
      (add_zero _) (add_zero _)
  functions := by
    rw [he.functions, h.functions]
    exact (add_zero _).symm
  lines := by
    rw [he.lines, h.lines]
    rfl
  settled := he.settled h.settled

namespace Gains

theorem each (h : ∀ q, p.Alike q → ∃ run₁, Gains base p p' m amount run₁ ∧
      ∀ q', run₁ q = .ok q' → run q = .ok q') : Gains base p p' m amount run := by
  obtain ⟨_, hp, -⟩ := h p (.refl p)
  refine ⟨hp.holds, fun q n halike hq hfits => ?_⟩
  obtain ⟨run₁, hrun₁, hsame⟩ := h q halike
  obtain ⟨q', hq', hrest⟩ := hrun₁.others q n halike hq hfits
  exact ⟨q', hsame q' hq', hrest⟩

theorem trans (h : Gains base p p₁ m amount run) (h' : Gains base p₁ p' (m + amount) amount' run₁) :
    Gains base p p' m (amount + amount') (fun q => run q >>= run₁) := by
  refine ⟨by simpa only [add_assoc] using h'.holds, fun q n halike hq hfits => ?_⟩
  rw [← add_assoc] at hfits ⊢
  obtain ⟨q₁, hq₁, halike₁, hholds₁⟩ := h.others q n halike hq hfits.of_add
  obtain ⟨q', hq', hrest⟩ := h'.others q₁ _ halike₁ hholds₁ hfits
  exact ⟨q', by rw [hq₁, ok_bind, hq'], hrest⟩

theorem change {count : Nat} (hm : p.Holds base m) (hp : p.Emits count p')
    (hrun : ∀ q, p.Alike q → ∃ q', run q = .ok q' ∧ p'.Alike q' ∧ q.Emits count q') :
    Gains base p p' m (.ofLines count) run := by
  refine ⟨hm.emits hp, fun q n halike hholds _ => ?_⟩
  obtain ⟨q', hq', halike', hemits⟩ := hrun q halike
  exact ⟨q', hq', halike', hholds.emits hemits⟩

theorem nothing (hm : p.Holds base m) : Gains base p p m (.ofLines 0) .ok :=
  change hm ⟨rfl, rfl, rfl, id⟩ fun q hq => ⟨q, rfl, hq, rfl, rfl, rfl, id⟩

/-- Code in one form is generated in all states. -/
theorem generate {check : Except NumberFault Unit} {code : Nat → Code × Nat}
    (hm : p.Holds base m) (h : p.generate check code = .ok p')
    (hrun : ∀ q, p.Alike q → ∃ check' code', SameForm check check' code code' ∧
      run q = q.generate check' code') :
    Gains base p p' m (.ofLines (code p.emitter.labels).1.length) run := by
  have hlines (q : Pass) (code' : Nat → Code × Nat) :
      q.Emits (code' q.emitter.labels).1.length { q with emitter := q.emitter.generate code' } :=
    ⟨rfl, rfl, by simp [Emitter.generate, Emitter.emit], id⟩
  obtain ⟨_, hcheck, h⟩ := bind_eq_ok.mp h
  obtain rfl := Except.ok.inj h
  refine ⟨hm.emits (hlines p code), fun q n halike hq _ => ?_⟩
  obtain ⟨check', code', hform, hq'⟩ := hrun q halike
  refine ⟨{ q with emitter := q.emitter.generate code' }, ?_, halike.withEmitter _ _, ?_⟩
  · rw [hq', Pass.generate, hform.check, hcheck]
    rfl
  · rw [← hform.lines p.emitter.labels q.emitter.labels]
    exact hq.emits (hlines q code')

theorem foldlM {α : Type} {f : Pass → α → Except Failure Pass} {l : List α}
    (hstep : ∀ p a p' m, p.Holds base m → f p a = .ok p' →
      ∃ amount, Gains base p p' m amount (f · a))
    (hm : p.Holds base m) (h : l.foldlM f p = .ok p') :
    ∃ amount, Gains base p p' m amount (l.foldlM f ·) := by
  induction l generalizing p m with
  | nil =>
    obtain rfl := Except.ok.inj h
    exact ⟨_, nothing hm⟩
  | cons a l ih =>
    rw [List.foldlM_cons] at h
    obtain ⟨p₁, hp₁, h⟩ := bind_eq_ok.mp h
    obtain ⟨first, hfirst⟩ := hstep p a p₁ m hm hp₁
    obtain ⟨later, hlater⟩ := ih hfirst.holds h
    exact ⟨_, hfirst.trans hlater⟩

/-- Steps that keep a state alike can be taken in another order. They are told by their keys. -/
theorem reordered {α κ : Type} {f : Pass → α → Except Failure Pass} {key : α → κ}
    (hstep : ∀ s a s' m, p.Alike s → s.Holds base m → f s a = .ok s' →
      p.Alike s' ∧ ∃ amount, ∀ b, key b = key a → Gains base s s' m amount (f · b))
    {as : List α} (hm : p.Holds base m) (h : as.foldlM f p = .ok p') :
    p.Alike p' ∧ ∃ sum, p'.Holds base (m + sum) ∧ ∀ (bs : List α) q n,
      (as.map key).Perm (bs.map key) → p.Alike q → q.Holds base n → (n + sum).Fits base →
        ∃ q', bs.foldlM f q = .ok q' ∧ p.Alike q' ∧ q'.Holds base (n + sum) := by
  have hbrings (s : Pass) (a : α) (s' : Pass) (m : Account) (hs : p.Alike s ∧ s.Holds base m)
      (hs' : f s a = .ok s') : ∃ amount, Brings (fun s m => p.Alike s ∧ s.Holds base m)
        (Account.Fits base) f key (key a) amount ∧ p.Alike s' ∧ s'.Holds base (m + amount) := by
    obtain ⟨hkept, amount, hgains⟩ := hstep s a s' m hs.1 hs.2 hs'
    refine ⟨amount, ?_, hkept, (hgains a rfl).holds⟩
    intro t n b hb ht hfits
    -- a run only goes through states alike, so a step taken in one of them can be taken in all
    obtain ⟨t', ht', halike, hholds⟩ :=
      (hgains b hb).others t n (hs.1.symm.trans ht.1) ht.2 hfits
    exact ⟨t', ht', hkept.trans halike, hholds⟩
  obtain ⟨sum, ⟨halike, hsum⟩, hothers⟩ :=
    foldlM_reordered (fun _ _ => Account.Fits.of_add) hbrings ⟨.refl p, hm⟩ h
  exact ⟨halike, sum, hsum, fun bs q n hperm hq hn => hothers bs q n hperm ⟨hq, hn⟩⟩

end Gains

theorem statement_gains {function : String} {text : List Char} (hm : p.Holds base m)
    (h : p.statement function text = .ok p') :
    ∃ amount, Gains base p p' m amount (·.statement function text) := by
  obtain ⟨s, hs, h⟩ := bind_eq_ok.mp h
  refine ⟨_, .generate hm h fun q halike => ?_⟩
  obtain ⟨s', hs', hform⟩ := halike.scope.readStatement text s hs
  exact ⟨_, _, hform function, by rw [statement, hs', ok_bind, perform]⟩

theorem condition_gains {text label : String} (hm : p.Holds base m)
    (h : p.condition text label = .ok p') :
    ∃ amount, ∀ label', Gains base p p' m amount (·.condition text label') := by
  obtain ⟨c, hc, h⟩ := bind_eq_ok.mp h
  refine ⟨_, fun label' => .generate hm h fun q halike => ?_⟩
  obtain ⟨c', hc', hform⟩ := halike.scope.readCondition text.toList c hc
  exact ⟨_, _, hform label label', by rw [condition, hc', ok_bind]⟩

theorem part_gains {function : String} {text : Option String} (hm : p.Holds base m)
    (h : p.part function text = .ok p') :
    ∃ amount, Gains base p p' m amount (·.part function text) := by
  cases text with
  | none =>
    obtain rfl := Except.ok.inj h
    exact ⟨_, .nothing hm⟩
  | some text => exact statement_gains hm h

/-- A condition that need not be there. -/
def test (p : Pass) (otherwise : String) : Option String → Except Failure Pass
  | some text => p.condition text otherwise
  | none => .ok p

theorem test_gains {text : Option String} {label : String} (hm : p.Holds base m)
    (h : p.test label text = .ok p') :
    ∃ amount, ∀ label', Gains base p p' m amount (·.test label' text) := by
  cases text with
  | none =>
    obtain rfl := Except.ok.inj h
    exact ⟨_, fun _ => .nothing hm⟩
  | some text => exact condition_gains hm h

/-- The state with two more labels, and with code behind the first of them. -/
def start (p : Pass) (first : String) (code : String → Code) : Pass :=
  { p with emitter := { p.emitter with labels := p.emitter.labels + 2 } }.emit
    (code (generatedLabel first p.emitter.labels))

/-- A block opened behind a condition, with two labels of its own. The second one is where the code
goes if the condition does not hold. -/
def opening (p : Pass) (first second : String) (code : String → Code)
    (block : String → String → Block) (text : Option String) : Except Failure Pass := do
  let otherwise := generatedLabel second (p.emitter.labels + 1)
  let q ← (p.start first code).test otherwise text
  return q.openBlock (block (generatedLabel first p.emitter.labels) otherwise)

theorem opening_gains {first second : String} {code : String → Code}
    {block : String → String → Block} {text : Option String} {count : Nat} (hm : p.Holds base m)
    (h : p.opening first second code block text = .ok p')
    (hcode : ∀ label, (code label).length = count)
    (hblock : ∀ a b a' b', (block a' b').unlabelled = (block a b).unlabelled) :
    ∃ amount, Gains base p p' m amount (·.opening first second code block text) := by
  obtain ⟨p₁, hp₁, h⟩ := bind_eq_ok.mp h
  obtain rfl := Except.ok.inj h
  have hstart (q : Pass) : q.Emits count (q.start first code) :=
    ⟨rfl, rfl, by simp [start, emit, Emitter.emit, hcode], id⟩
  have hbegun : Gains base p (p.start first code) m (.ofLines count) fun q =>
      .ok (q.start first code) :=
    .change hm (hstart p) fun q hq => ⟨_, rfl, hq.withEmitter _ _, hstart q⟩
  obtain ⟨amount, htest⟩ := test_gains hbegun.holds hp₁
  have hopen (a b a' b' : String) : Gains base p₁ (p₁.openBlock (block a b))
      (m + .ofLines count + amount) (.ofLines 0) fun r => .ok (r.openBlock (block a' b')) :=
    .change (htest "").holds ⟨rfl, rfl, rfl, id⟩ fun r hr =>
      ⟨_, rfl, hr.openBlock (hblock a b a' b'), rfl, rfl, rfl, id⟩
  -- the labels are told by how many were generated before, so each state has its own
  exact ⟨_, .each fun q _ =>
    ⟨_, hbegun.trans ((htest _).trans (hopen _ _ _ _)), fun q' hq' => hq'⟩⟩

theorem openIf_gains {text : String} (hm : p.Holds base m) (h : p.openIf text = .ok p') :
    ∃ amount, Gains base p p' m amount (·.openIf text) := by
  have hopen (q : Pass) : q.openIf text = q.opening "CIFEND" "CIFELSE" (fun _ => [])
      (fun endLabel elseLabel => .thenPart elseLabel endLabel) (some text) := by
    have hstart : q.start "CIFEND" (fun _ => []) =
        { q with emitter := { q.emitter with labels := q.emitter.labels + 2 } } := by
      simp [start, emit, Emitter.emit]
    rw [opening, hstart]
    rfl
  simp only [hopen] at h ⊢
  exact opening_gains hm h (fun _ => rfl) fun _ _ _ _ => rfl

theorem openWhile_gains {text : String} (hm : p.Holds base m) (h : p.openWhile text = .ok p') :
    ∃ amount, Gains base p p' m amount (·.openWhile text) := by
  have hopen (q : Pass) : q.openWhile text =
      q.opening "CWHILES" "CWHILEE" (fun label => [.label label]) .whileLoop (some text) := rfl
  simp only [hopen] at h ⊢
  exact opening_gains hm h (fun _ => rfl) fun _ _ _ _ => rfl

theorem openFor_gains {function : String} {header : LoopHeader} (hm : p.Holds base m)
    (h : p.openFor function header = .ok p') :
    ∃ amount, Gains base p p' m amount (·.openFor function header) := by
  have hopen (q : Pass) : q.openFor function header =
      (q.part function header.initial >>= fun r => r.opening "CFORS" "CFORE"
        (fun label => [.label label]) (.forLoop · · header.step) header.condition) := by
    unfold openFor
    cases header.initial <;> cases header.condition <;> rfl
  simp only [hopen] at h ⊢
  obtain ⟨p₁, hp₁, h⟩ := bind_eq_ok.mp h
  obtain ⟨first, hfirst⟩ := part_gains hm hp₁
  obtain ⟨later, hlater⟩ := opening_gains hfirst.holds h (fun _ => rfl) fun _ _ _ _ => rfl
  exact ⟨_, hfirst.trans hlater⟩

def finish (p : Pass) (b : Block) : Pass :=
  { p.emit b.closing with pendingEnd := b.pending?.or p.pendingEnd }

theorem finish_gains {b b' : Block} (hm : p.Holds base m) (hb : b'.unlabelled = b.unlabelled) :
    Gains base p (p.finish b) m (.ofLines b.closing.length) fun q => .ok (q.finish b') := by
  have hemits (q : Pass) (c : Block) (hc : c.unlabelled = b.unlabelled) :
      q.Emits b.closing.length (q.finish c) :=
    ⟨rfl, rfl, by simp [finish, emit, Emitter.emit, Block.length_closing_congr hc], id⟩
  refine .change hm (hemits p b rfl) fun q hq => ⟨_, rfl, ?_, hemits q b' hb⟩
  refine { hq with pending := ?_ }
  simp [finish, Block.pending?_congr hb, hq.pending]

theorem pop_gains {b : Block} {blocks : List Block} (hm : p.Holds base m)
    (hblocks : p.blocks = b :: blocks) : Gains base p { p with blocks } m (.ofLines 0) fun q =>
      .ok { q with blocks := q.blocks.tail } := by
  refine .change hm ⟨rfl, rfl, rfl, id⟩ fun q hq => ⟨_, rfl, ?_, rfl, rfl, rfl, id⟩
  refine { hq with blocks := ?_ }
  dsimp only
  rw [List.map_tail, hq.blocks, hblocks]
  rfl

theorem close_function {function : String} (h : p.blocks = []) : p.close function =
    .ok { p.emit [leaveCode function, .empty] with function := none, locals := [] } := by
  rw [close, h]
  rfl

theorem close_block {function : String} {b : Block} {blocks : List Block}
    (h : p.blocks = b :: blocks) : p.close function =
      ({ p with blocks }.part function b.step? >>= fun r => .ok (r.finish b)) := by
  unfold close
  rw [h]
  cases b with
  | forLoop startLabel endLabel step => cases step <;> rfl
  | _ => rfl

theorem close_gains {function : String} (hm : p.Holds base m) (h : p.close function = .ok p') :
    ∃ amount, Gains base p p' m amount (·.close function) := by
  cases hblocks : p.blocks with
  | nil =>
    have hends (q : Pass) : q.Emits 2
        { q.emit [leaveCode function, .empty] with function := none, locals := [] } :=
      ⟨rfl, rfl, List.length_append, fun _ _ => rfl⟩
    obtain rfl := Except.ok.inj ((close_function hblocks).symm.trans h)
    refine ⟨_, .change hm (hends p) fun q hq => ⟨_, close_function ?_, ?_, hends q⟩⟩
    · simpa [hblocks] using hq.blocks
    · exact { hq with function := rfl, locals := rfl }
  | cons b blocks =>
    rw [close_block hblocks] at h
    obtain ⟨p₁, hp₁, h⟩ := bind_eq_ok.mp h
    obtain rfl := Except.ok.inj h
    have hpopped := pop_gains hm hblocks
    obtain ⟨amount, hstep⟩ := part_gains hpopped.holds hp₁
    refine ⟨.ofLines 0 + (amount + .ofLines b.closing.length), .each fun q hq => ?_⟩
    have hall := hq.blocks
    rw [hblocks, List.map_cons, List.map_eq_cons_iff] at hall
    obtain ⟨b', blocks', hblocks', hb', -⟩ := hall
    refine ⟨_, hpopped.trans (hstep.trans (finish_gains hstep.holds hb')), fun q' hq' => ?_⟩
    rw [close_block hblocks', Block.step?_congr hb']
    simpa [hblocks'] using hq'

def placeLocal (p : Pass) (name : String) (location : Location) : Except Failure Pass := do
  let (v, allocation) ← p.allocation.place name location
  return { p with allocation, locals := p.locals ++ [v] }

def setLocal (p : Pass) (address : Int) : Option String → Except Failure Pass
  | none => .ok p
  | some text => do
    let value ← readExpression p.scope text.toList
    p.perform "" (.assign address value)

theorem declareLocal_eq {d : Declaration} {location : Location}
    (hnew : (p.allocation.globals ++ p.locals).find? (·.name = d.name) = none) :
    p.declareLocal d location =
      (p.placeLocal d.name location >>= fun q => q.setLocal p.allocation.next d.initial) := by
  unfold declareLocal placeLocal
  simp only [hnew]
  cases hplace : p.allocation.place d.name location with
  | error e => rfl
  | ok r =>
    obtain ⟨v, a⟩ := r
    obtain ⟨-, rfl, rfl⟩ := place_eq_ok.mp hplace
    cases d.initial with
    | none => rfl
    | some text =>
      simp only [ok_bind, pure_eq_ok, setLocal, scope, Scope.withVariable, List.map_append,
        List.append_assoc]
      rfl

theorem setLocal_gains {address : Int} {text : Option String} (hm : p.Holds base m)
    (h : p.setLocal address text = .ok p') :
    ∃ amount, ∀ address', Gains base p p' m amount (·.setLocal address' text) := by
  cases text with
  | none =>
    obtain rfl := Except.ok.inj h
    exact ⟨_, fun _ => .nothing hm⟩
  | some text =>
    obtain ⟨value, hvalue, h⟩ := bind_eq_ok.mp h
    refine ⟨_, fun address' => .generate hm h fun q halike => ?_⟩
    obtain ⟨value', hvalue', hform⟩ := halike.scope.readExpression text.toList value hvalue
    exact ⟨_, _, Statement.Alike.assign address address' hform "",
      by rw [setLocal, hvalue', ok_bind, perform]⟩

def withLocal (p : Pass) (name : String) (location : Location) : Pass := { p with
  allocation := { p.allocation with
    next := p.allocation.next + 1
    addresses := p.allocation.addresses.put name p.allocation.next }
  locals := p.locals ++ [⟨name, p.allocation.next, location⟩] }

theorem placeLocal_eq_ok {name : String} {location : Location} :
    p.placeLocal name location = .ok p' ↔
      p.allocation.next < zeroPageLimit ∧ p' = p.withLocal name location := by
  constructor
  · intro h
    obtain ⟨⟨v, a⟩, hplace, h⟩ := bind_eq_ok.mp h
    obtain ⟨hroom, rfl, rfl⟩ := place_eq_ok.mp hplace
    exact ⟨hroom, (Except.ok.inj h).symm⟩
  · rintro ⟨hroom, rfl⟩
    rw [placeLocal, place_eq_ok.mpr ⟨hroom, rfl, rfl⟩]
    rfl

theorem Holds.fits_local_iff (h : p.Holds base m) (name : String) :
    (m + .ofLocal name).Fits base ↔ p.allocation.next < zeroPageLimit := by
  have hplaced : (Account.ofLocal name).placed = {name} := by simp [Account.placed, Account.ofLocal]
  have hglobals : (m + .ofLocal name).globals = m.globals := add_zero _
  rw [Account.fits_add_variable h.allocation.fits hplaced rfl, hglobals, h.allocation.takes.next]
  exact and_iff_right h.allocation.fits.globals

theorem Holds.withLocal {name : String} (h : p.Holds base m) (hinside : p.function ≠ none)
    (hfits : (m + .ofLocal name).Fits base) (location : Location) :
    (p.withLocal name location).Holds base (m + .ofLocal name) where
  allocation := by
    have hplaced : (m + .ofLocal name).placed = m.placed + {name} := by
      simp [Account.placed, Account.ofLocal, add_assoc]
    have htakes := h.allocation.takes.place name
    refine ⟨hfits, ?_, h.allocation.globals.trans (add_zero _).symm,
      h.allocation.initial.trans (add_zero _).symm, h.allocation.declared.trans (add_zero _).symm⟩
    rw [hplaced]
    exact ⟨htakes.next, htakes.known, htakes.below, htakes.last⟩
  functions := h.functions.trans (add_zero _).symm
  lines := h.lines
  settled hnone := absurd hnone hinside

theorem placeLocal_gains {name : String} {location : Location} (hm : p.Holds base m)
    (hinside : p.function ≠ none) (h : p.placeLocal name location = .ok p') :
    Gains base p p' m (.ofLocal name) (·.placeLocal name location) := by
  obtain ⟨hroom, rfl⟩ := placeLocal_eq_ok.mp h
  refine ⟨hm.withLocal hinside ((hm.fits_local_iff name).mpr hroom) location, ?_⟩
  intro q n halike hq hfits
  have hroom := (hq.fits_local_iff name).mp hfits
  refine ⟨_, placeLocal_eq_ok.mpr ⟨hroom, rfl⟩, ?_, hq.withLocal ?_ hfits location⟩
  · exact { halike with locals := by simp [withLocal, halike.locals] }
  · rw [halike.function]
    exact hinside

theorem declareLocal_gains {d : Declaration} {location : Location} (hm : p.Holds base m)
    (hinside : p.function ≠ none) (h : p.declareLocal d location = .ok p') :
    ∃ amount, Gains base p p' m amount (·.declareLocal d location) := by
  have hnew : (p.allocation.globals ++ p.locals).find? (·.name = d.name) = none := by
    cases declareLocal_extends h with
    | places hnew => exact hnew
  rw [declareLocal_eq hnew] at h
  obtain ⟨p₁, hp₁, h⟩ := bind_eq_ok.mp h
  have hplaced := placeLocal_gains hm hinside hp₁
  obtain ⟨amount, hset⟩ := setLocal_gains hplaced.holds h
  refine ⟨.ofLocal d.name + amount, .each fun q hq =>
    ⟨_, hplaced.trans (hset q.allocation.next), ?_⟩⟩
  rw [find?_name_eq_none, ← hq.mem_names, ← find?_name_eq_none] at hnew
  rw [declareLocal_eq hnew]
  exact fun q' hq' => hq'

end Pass

end Toolchain6502.C
