import Toolchain6502.Assembly.Session
import Toolchain6502.Proofs.Outcome

namespace Toolchain6502.Assembly

open Cpu

def Statement.size (s : Statement) : Nat :=
  match s.content with
  | .instruction m o => ((encoding? m o).map Opcode.size).getD 0
  | _ => 0

def layStatement (t : Symbols) (address : Nat) (s : Statement) :
    Except Diagnostic (Symbols × Nat) :=
  match s.content with
  | .label name => do
    let t ← define t s name address (.label s.location)
    return (t, address)
  | .constant name value => do
    let n ← constantValue t s value
    let t ← define t s name n (.constant s.location)
    return (t, address)
  | .instruction m o => do
    let opcode ← encode s m o
    if address + opcode.size ≤ addressLimit then return (t, address + opcode.size)
    else throw (s.fail .programTooLong)

/-- The table of all symbols, those of the statements behind those of `t`. -/
def layOut (t : Symbols) (address : Nat) : List Statement → Except Diagnostic Symbols
  | [] => .ok t
  | s :: rest => do
    let (t, address) ← layStatement t address s
    layOut t address rest

def emitInstruction (t : Symbols) (address : Nat) (s : Statement) (m : Mnemonic) (o : Operand) :
    Except Diagnostic Row := do
  let opcode ← encode s m o
  let operand ← operandBytes t s (address + opcode.size) opcode.mode o.term
  return ⟨address, opcode.code :: operand, s.location.line, s.source⟩

def emitRows (t : Symbols) (address : Nat) : List Statement → Except Diagnostic (List Row)
  | [] => .ok []
  | s :: rest =>
    match s.content with
    | .label _ | .constant _ _ => emitRows t address rest
    | .instruction m o => do
      let row ← emitInstruction t address s m o
      let rows ← emitRows t (address + s.size) rest
      return row :: rows

def lineMapOf (rows : List Row) : List Int :=
  rows.flatMap fun r => List.replicate r.bytes.length r.line

def Image.ofRows (symbols : Symbols) (rows : List Row) : Image where
  symbols
  code := rows.flatMap Row.bytes
  lineMap := lineMapOf rows
  rows

theorem encode_eq_ok {s : Statement} {m : Mnemonic} {o : Operand} {opcode : Opcode} :
    encode s m o = .ok opcode ↔ encoding? m o = some opcode := by
  unfold encode
  cases h : encoding? m o <;> simp

@[simp] theorem Image.symbols_ofRows (t : Symbols) (rows : List Row) : (ofRows t rows).symbols = t :=
  rfl

@[simp] theorem Image.rows_ofRows (t : Symbols) (rows : List Row) : (ofRows t rows).rows = rows := rfl

theorem Image.code_ofRows (t : Symbols) (rows : List Row) :
    (ofRows t rows).code = rows.flatMap Row.bytes := rfl

theorem Image.lineMap_ofRows (t : Symbols) (rows : List Row) :
    (ofRows t rows).lineMap = lineMapOf rows := rfl

def walks (origin : Nat) (predefined : Symbols) (ss : List Statement) : Except Diagnostic Image := do
  let symbols ← layOut predefined origin ss
  let rows ← emitRows symbols origin ss
  return .ofRows symbols rows

theorem size_of_encode {s : Statement} {m : Mnemonic} {o : Operand} {opcode : Opcode}
    (hc : s.content = .instruction m o) (h : encode s m o = .ok opcode) : s.size = opcode.size := by
  simp [Statement.size, hc, encode_eq_ok.mp h]

theorem wordOperand_length {t : Symbols} {s : Statement} {term : Term} {bytes : List UInt8}
    (h : wordOperand t s term = .ok bytes) : bytes.length = 2 := by
  cases term with
  | number | minus =>
    obtain rfl := Except.ok.inj h
    rfl
  | symbol | half =>
    obtain ⟨n, -, h⟩ := bind_eq_ok.mp h
    obtain rfl := Except.ok.inj h
    rfl

theorem operandBytes_length {t : Symbols} {s : Statement} {next : Nat} {mode : Mode} {term : Term}
    {bytes : List UInt8} (h : operandBytes t s next mode term = .ok bytes) :
    bytes.length = mode.operandSize := by
  cases mode with
  | implied | accumulator =>
    obtain rfl := Except.ok.inj h
    rfl
  | absolute | absoluteX | absoluteY | indirect => exact wordOperand_length h
  | immediate | relative | zeroPage | zeroPageX | zeroPageY | indexedIndirect | indirectIndexed =>
    obtain ⟨b, -, h⟩ := bind_eq_ok.mp h
    obtain rfl := Except.ok.inj h
    rfl

/-- The row of a statement at an address, with as many bytes as the opcode table says. -/
structure Statement.Placed (s : Statement) (address : Nat) (row : Row) : Prop where
  address : row.address = address
  line : row.line = s.location.line
  source : row.source = s.source
  length : row.bytes.length = s.size

theorem emitInstruction_row {t : Symbols} {a : Nat} {s : Statement} {m : Mnemonic} {o : Operand}
    {row : Row} (hc : s.content = .instruction m o) (h : emitInstruction t a s m o = .ok row) :
    s.Placed a row := by
  obtain ⟨opcode, hencode, h⟩ := bind_eq_ok.mp h
  obtain ⟨operand, hoperand, h⟩ := bind_eq_ok.mp h
  obtain rfl := Except.ok.inj h
  refine ⟨rfl, rfl, rfl, ?_⟩
  rw [size_of_encode hc hencode, List.length_cons, operandBytes_length hoperand, Opcode.size,
    Nat.add_comm]

namespace Generation

theorem get_apply (g : Generator) : (get : Generation Generator) g = (.ok g, g) := rfl

theorem modify_apply (f : Generator → Generator) (g : Generator) :
    (modify f : Generation Unit) g = (.ok (), f g) := rfl

theorem pure_apply (a : α) (g : Generator) : (pure a : Generation α) g = (.ok a, g) := rfl

theorem throw_apply (d : Diagnostic) (g : Generator) :
    (throw d : Generation α) g = (.error d, g) := rfl

theorem tryCatch_apply (x : Generation α) (f : Diagnostic → Generation α) (g : Generator) :
    (tryCatch x f) g = match x g with
      | (.ok a, g') => (.ok a, g')
      | (.error d, g') => f d g' := by
  simp only [tryCatch, tryCatchThe, MonadExceptOf.tryCatch, ExceptT.tryCatch, ExceptT.mk, Bind.bind,
    StateT.bind]
  cases x g with
  | mk r g' => cases r <;> rfl

theorem forM_cons_apply (f : α → Generation Unit) (a : α) (l : List α) (g : Generator) :
    (a :: l).forM f g = match f a g with
      | (.ok _, g') => l.forM f g'
      | (.error d, g') => (.error d, g') := by
  refine (bind_apply (f a) (fun _ => l.forM f) g).trans ?_
  cases f a g with
  | mk r g' => cases r <;> rfl

theorem liftExcept_apply (x : Except Diagnostic α) (g : Generator) :
    (liftExcept x : Generation α) g = (x, g) := by
  cases x <;> rfl

end Generation

namespace Generator

open Generation

variable {g : Generator} {s : Statement} {ss : List Statement} {d : Diagnostic}

def withRows (rows : List Row) (g : Generator) : Generator :=
  { g with
    pc := g.pc + (rows.flatMap Row.bytes).length
    image := {
      symbols := g.image.symbols
      code := g.image.code ++ rows.flatMap Row.bytes
      lineMap := g.image.lineMap ++ lineMapOf rows
      rows := g.image.rows ++ rows } }

theorem enter_eq (s : Statement) (name : String) (value : Nat) (definition : Definition)
    (g : Generator) :
    enter s name value definition g =
      match define g.image.symbols s name value definition with
      | .ok t => (.ok (), g.withSymbols t)
      | .error d => (.error d, g) := by
  simp only [enter, bind_apply, get_apply, liftExcept_apply, modify_apply]
  cases define g.image.symbols s name value definition <;> rfl

/-- One step of the first pass. At fault, the address may be that of the end. -/
theorem layNext_eq (s : Statement) (g : Generator) :
    ∃ pc, layNext s g =
      match layStatement g.image.symbols g.pc s with
      | .ok (t, address) => (.ok (), { g.withSymbols t with pc := address })
      | .error d => (.error d, { g with pc }) := by
  unfold layNext layStatement
  cases s.content with
  | label name =>
    refine ⟨g.pc, ?_⟩
    simp only [bind_apply, get_apply, enter_eq]
    cases define g.image.symbols s name g.pc (.label s.location) <;> rfl
  | constant name value =>
    refine ⟨g.pc, ?_⟩
    simp only [bind_apply, get_apply, liftExcept_apply, enter_eq]
    cases constantValue g.image.symbols s value with
    | error d => rfl
    | ok n =>
      simp only [ok_bind]
      cases define g.image.symbols s name n (.constant s.location) <;> rfl
  | instruction m o =>
    simp only [bind_apply, get_apply, liftExcept_apply, modify_apply, skip]
    cases encode s m o with
    | error d => exact ⟨g.pc, rfl⟩
    | ok opcode =>
      refine ⟨g.pc + opcode.size, ?_⟩
      simp only [ok_bind]
      by_cases hlimit : g.pc + opcode.size ≤ addressLimit
      · simp only [hlimit, Nat.not_lt.mpr hlimit, if_true, if_false]
        rfl
      · simp only [hlimit, Nat.lt_of_not_le hlimit, if_true, if_false]
        rfl

theorem emitInstruction_eq {m : Mnemonic} {o : Operand} (hc : s.content = .instruction m o)
    (g : Generator) :
    ∃ bytes, emitInstruction s m o g =
      match Assembly.emitInstruction g.image.symbols g.pc s m o with
      | .ok row => (.ok (), (g.withBytes row.bytes).skip s.size)
      | .error d => (.error d, g.withBytes bytes) := by
  unfold emitInstruction Assembly.emitInstruction
  simp only [bind_apply, get_apply, liftExcept_apply, modify_apply]
  cases hencode : encode s m o with
  | error d => exact ⟨[], by simp [withBytes]⟩
  | ok opcode =>
    refine ⟨[opcode.code], ?_⟩
    simp only [ok_bind, withBytes]
    cases operandBytes g.image.symbols s (g.pc + opcode.size) opcode.mode o.term with
    | error d => rfl
    | ok operand => simp [skip, size_of_encode hc hencode]

/-- One step of the second pass. At fault, the opcode may be written already. -/
theorem emitNext_eq {m : Mnemonic} {o : Operand} (hc : s.content = .instruction m o)
    (g : Generator) :
    ∃ bytes, emitNext s g =
      match Assembly.emitInstruction g.image.symbols g.pc s m o with
      | .ok row => (.ok (), g.withRows [row])
      | .error d => (.error d, g.withBytes bytes) := by
  obtain ⟨bytes, hemit⟩ := emitInstruction_eq hc g
  refine ⟨bytes, ?_⟩
  simp only [emitNext, hc, bind_apply, get_apply, modify_apply, hemit]
  cases hrow : Assembly.emitInstruction g.image.symbols g.pc s m o with
  | error d => rfl
  | ok row =>
    have hplaced := emitInstruction_row hc hrow
    simp [withRows, withRow, skip, withBytes, lineMapOf, ← hplaced.address, ← hplaced.line,
      ← hplaced.source, hplaced.length]

theorem emitNext_of_not_instruction (hc : ∀ m o, s.content ≠ .instruction m o) (g : Generator) :
    emitNext s g = (.ok (), g) := by
  unfold emitNext
  cases h : s.content with
  | label | constant => rfl
  | instruction m o => exact absurd h (hc m o)

/-- The first pass is the first walk, and ends at some address. -/
theorem forM_layNext_of_ok {t : Symbols} (h : layOut g.image.symbols g.pc ss = .ok t) :
    ∃ pc, ss.forM layNext g = (.ok (), { g.withSymbols t with pc }) := by
  induction ss generalizing g with
  | nil =>
    obtain rfl := Except.ok.inj h
    exact ⟨g.pc, rfl⟩
  | cons s rest ih =>
    obtain ⟨⟨t₁, address⟩, hs, hrest⟩ := bind_eq_ok.mp h
    obtain ⟨_, hstep⟩ := layNext_eq s g
    obtain ⟨pc, hpc⟩ := ih (g := { g.withSymbols t₁ with pc := address }) hrest
    refine ⟨pc, ?_⟩
    rw [forM_cons_apply, hstep, hs]
    exact hpc

/-- A pass that fails changes neither what the generator starts from nor what it is given. -/
theorem forM_layNext_of_error (h : layOut g.image.symbols g.pc ss = .error d) :
    ∃ g', ss.forM layNext g = (.error d, g') ∧ g'.reset = g.reset := by
  induction ss generalizing g with
  | nil => simp [layOut] at h
  | cons s rest ih =>
    obtain ⟨pc, hstep⟩ := layNext_eq s g
    rcases bind_eq_error.mp h with hs | ⟨⟨t₁, address⟩, hs, hrest⟩
    · exact ⟨{ g with pc }, by simp only [forM_cons_apply, hstep, hs], rfl⟩
    · obtain ⟨g', hfail, hreset⟩ := ih (g := { g.withSymbols t₁ with pc := address }) hrest
      exact ⟨g', by simpa only [forM_cons_apply, hstep, hs] using hfail, hreset⟩

theorem withRows_append (rows others : List Row) (g : Generator) :
    (g.withRows rows).withRows others = g.withRows (rows ++ others) := by
  simp [withRows, lineMapOf, Nat.add_assoc]

theorem forM_emitNext_of_ok {rows : List Row}
    (h : emitRows g.image.symbols g.pc ss = .ok rows) :
    ss.forM emitNext g = (.ok (), g.withRows rows) := by
  induction ss generalizing g rows with
  | nil =>
    obtain rfl := Except.ok.inj h
    simp [withRows, lineMapOf, pure_apply]
  | cons s rest ih =>
    simp only [forM_cons_apply]
    cases hc : s.content with
    | label | constant =>
      simp only [emitRows, hc] at h
      rw [emitNext_of_not_instruction (by simp [hc])]
      exact ih h
    | instruction m o =>
      simp only [emitRows, hc] at h
      obtain ⟨row, hrow, h⟩ := bind_eq_ok.mp h
      obtain ⟨others, hothers, h⟩ := bind_eq_ok.mp h
      obtain rfl := Except.ok.inj h
      obtain ⟨_, hstep⟩ := emitNext_eq hc g
      -- The walk goes on by the size of the statement, and the rows by the bytes that they have.
      rw [← (emitInstruction_row hc hrow).length] at hothers
      rw [hstep, hrow]
      refine (ih (g := g.withRows [row]) (by simpa [withRows] using hothers)).trans ?_
      rw [withRows_append, List.singleton_append]

theorem forM_emitNext_of_error (h : emitRows g.image.symbols g.pc ss = .error d) :
    ∃ g', ss.forM emitNext g = (.error d, g') ∧ g'.reset = g.reset := by
  induction ss generalizing g with
  | nil => simp [emitRows] at h
  | cons s rest ih =>
    simp only [forM_cons_apply]
    cases hc : s.content with
    | label | constant =>
      simp only [emitRows, hc] at h
      rw [emitNext_of_not_instruction (by simp [hc])]
      exact ih h
    | instruction m o =>
      simp only [emitRows, hc] at h
      obtain ⟨bytes, hstep⟩ := emitNext_eq hc g
      rcases bind_eq_error.mp h with hrow | ⟨row, hrow, h⟩
      · exact ⟨g.withBytes bytes, by simp only [hstep, hrow], rfl⟩
      · have hothers : emitRows g.image.symbols (g.pc + s.size) rest = .error d := by
          simpa [bind_eq_error] using h
        rw [← (emitInstruction_row hc hrow).length] at hothers
        obtain ⟨g', hfail, hreset⟩ := ih (g := g.withRows [row]) (by simpa [withRows] using hothers)
        exact ⟨g', by simpa only [hstep, hrow] using hfail, hreset⟩

theorem passes_of_ok {image : Image} (h : walks g.origin g.predefined ss = .ok image) :
    passes ss g.reset = (.ok (), { g with pc := g.origin + image.code.length, image }) := by
  obtain ⟨t, ht, h⟩ := bind_eq_ok.mp h
  obtain ⟨rows, hrows, h⟩ := bind_eq_ok.mp h
  obtain rfl := Except.ok.inj h
  obtain ⟨pc, hlay⟩ := forM_layNext_of_ok (g := g.reset.toOrigin) ht
  simp only [passes, bind_apply, modify_apply, hlay]
  refine (forM_emitNext_of_ok (g := { g.reset with image := { symbols := t } }) hrows).trans ?_
  simp [withRows, reset, Image.ofRows]

theorem passes_of_error (h : walks g.origin g.predefined ss = .error d) :
    ∃ g', passes ss g.reset = (.error d, g') ∧ g'.reset = g.reset := by
  -- Whichever pass fails, what it has changed by then is lost in the reset.
  rcases bind_eq_error.mp h with h | ⟨t, ht, h⟩
  · obtain ⟨g', hlay, hreset⟩ := forM_layNext_of_error (g := g.reset.toOrigin) h
    exact ⟨g', by simp only [passes, bind_apply, modify_apply, hlay], hreset⟩
  · have hrows : emitRows t g.origin ss = .error d := by simpa [bind_eq_error] using h
    obtain ⟨pc, hlay⟩ := forM_layNext_of_ok (g := g.reset.toOrigin) ht
    obtain ⟨g', hemit, hreset⟩ := forM_emitNext_of_error
      (g := { g.reset with image := { symbols := t } }) hrows
    refine ⟨g', ?_, hreset⟩
    simp only [passes, bind_apply, modify_apply, hlay]
    exact hemit

/-- A generator gives what the walks give, whatever image it had before. -/
theorem generate_eq_walks (ss : List Statement) (g : Generator) :
    generate ss g =
      match walks g.origin g.predefined ss with
      | .ok image => (.ok image.code, { g with pc := g.origin + image.code.length, image })
      | .error d => (.error d, g.reset) := by
  simp only [generate, bind_apply, modify_apply, tryCatch_apply, throw_apply, get_apply, pure_apply]
  cases h : walks g.origin g.predefined ss with
  | ok image => simp only [passes_of_ok h]
  | error d =>
    obtain ⟨g', hpasses, hreset⟩ := passes_of_error h
    simp only [hpasses, hreset]

end Generator

theorem assemble_eq (origin : Nat) (predefined : Symbols) (ss : List Statement) :
    assemble origin predefined ss = walks origin predefined ss := by
  simp only [assemble, Generator.generate_eq_walks]
  cases walks origin predefined ss <;> rfl

/-- A generator that was used before gives what a new one gives, and keeps nothing of what it had. -/
theorem Generator.generate_eq (ss : List Statement) (g : Generator) :
    generate ss g =
      match assemble g.origin g.predefined ss with
      | .ok image => (.ok image.code, { g with pc := g.origin + image.code.length, image })
      | .error d => (.error d, g.reset) := by
  simp only [assemble_eq, generate_eq_walks]

namespace Session

/-- The session after a text. Its old image does not count, unless the text cannot be read. -/
theorem assembleText_eq (s : Session) (text : String) :
    s.assembleText text =
      match readSource mergedName text with
      | .error e => (.error e.toFailure, s)
      | .ok ss =>
        match Assembly.assemble s.origin s.predefined ss with
        | .ok image => (.ok image.code, { s with pc := s.origin + image.code.length, image })
        | .error d => (.error (.assembly d), { s with toGenerator := s.reset }) := by
  unfold assembleText
  cases readSource mergedName text with
  | error e => rfl
  | ok ss =>
    simp only [Generator.generate_eq]
    cases Assembly.assemble s.origin s.predefined ss <;> rfl

end Session

end Toolchain6502.Assembly
