import Toolchain6502.C.Statement
import Toolchain6502.Proofs.Assembly.Acceptance
import Toolchain6502.Proofs.Assembly.LoadedImage
import Toolchain6502.Proofs.C.CodeText
import Toolchain6502.Proofs.C.GeneratedLabels

namespace Toolchain6502.C

open Cpu

variable {name : String} {m : Mnemonic} {operand : CodeOperand} {c : Machine}

def lineAddress (origin : Nat) (rows : List (List Assembly.Statement)) (line : Nat) : Nat :=
  Assembly.addressAt origin rows.flatten (rows.take line).flatten.length

section
variable {origin line : Nat} {rows : List (List Assembly.Statement)} {s : Assembly.Statement}

theorem flatten_getElem? (h : rows[line]? = some [s]) :
    rows.flatten[(rows.take line).flatten.length]? = some s := by
  induction rows generalizing line with
  | nil => simp at h
  | cons row rows ih =>
    cases line with
    | zero =>
      obtain rfl : row = [s] := by simpa using h
      rfl
    | succ line =>
      rw [List.take_succ_cons, List.flatten_cons, List.flatten_cons, List.length_append,
        List.getElem?_append_right (by omega), Nat.add_sub_cancel_left]
      exact ih (by simpa using h)

theorem mem_placed (h : rows[line]? = some [s]) :
    (lineAddress origin rows line, s) ∈ Assembly.placed origin rows.flatten := by
  refine List.mem_of_getElem? (i := (rows.take line).flatten.length) ?_
  rw [Assembly.placed_getElem?, flatten_getElem? h]
  rfl

theorem lineAddress_succ (h : rows[line]? = some [s]) :
    lineAddress origin rows (line + 1) = lineAddress origin rows line + s.size := by
  have hlength : (rows.take (line + 1)).flatten.length = (rows.take line).flatten.length + 1 := by
    simp [List.take_add_one, h]
  rw [lineAddress, hlength]
  exact Assembly.addressAt_succ (flatten_getElem? h)

theorem lineAddress_succ_of_nil (h : rows[line]? = some []) :
    lineAddress origin rows (line + 1) = lineAddress origin rows line := by
  simp [lineAddress, List.take_add_one, h]

end

def Point.machine (origin : Nat) (rows : List (List Assembly.Statement)) (p : Point) : Machine :=
  ⟨BitVec.ofNat 16 (lineAddress origin rows p.line), p.state⟩

section
variable {code : Code} {rows : List (List Assembly.Statement)} (h : Rows code rows) {line : Nat}

include h

theorem Rows.row {l : CodeLine} (hl : code[line]? = some l) :
    ∃ row, rows[line]? = some row ∧ l.Reads (row.map Assembly.Statement.content) :=
  forall₂_getElem? h hl

theorem Rows.label (hl : code[line]? = some (.label name)) :
    ∃ s : Assembly.Statement, rows[line]? = some [s] ∧ s.content = .label name := by
  obtain ⟨row, hrow, hreads⟩ := h.row hl
  generalize hcontents : row.map Assembly.Statement.content = contents at hreads
  cases hreads
  obtain ⟨s, rfl, hs⟩ := List.map_eq_singleton_iff.mp hcontents
  exact ⟨s, hrow, hs⟩

theorem Rows.instruction (hl : code[line]? = some (.instruction m operand)) :
    ∃ (s : Assembly.Statement) (o : Assembly.Operand), rows[line]? = some [s] ∧
      s.content = .instruction m o ∧ operand.Reads o := by
  obtain ⟨row, hrow, hreads⟩ := h.row hl
  generalize hcontents : row.map Assembly.Statement.content = contents at hreads
  cases hreads with
  | instruction hoperand =>
    obtain ⟨s, rfl, hs⟩ := List.map_eq_singleton_iff.mp hcontents
    exact ⟨s, _, hrow, hs, hoperand⟩

theorem Rows.empty (hl : code[line]? = some .empty) : rows[line]? = some [] := by
  obtain ⟨row, hrow, hreads⟩ := h.row hl
  generalize hcontents : row.map Assembly.Statement.content = contents at hreads
  cases hreads
  rwa [List.map_eq_nil_iff.mp hcontents] at hrow

theorem Rows.definedNames : Assembly.definedNames rows.flatten = labelsOf code := by
  induction h with
  | nil => rfl
  | @cons l row code rows hrow _ ih =>
    have hfirst : Assembly.definedNames row = labelsOf [l] := by
      generalize hcontents : row.map Assembly.Statement.content = contents at hrow
      cases hrow with
      | label =>
        obtain ⟨s, rfl, hs⟩ := List.map_eq_singleton_iff.mp hcontents
        simp [Assembly.definedNames, Assembly.Statement.defines?, hs, labelsOf]
      | instruction =>
        obtain ⟨s, rfl, hs⟩ := List.map_eq_singleton_iff.mp hcontents
        simp [Assembly.definedNames, Assembly.Statement.defines?, hs, labelsOf]
      | empty =>
        rw [List.map_eq_nil_iff.mp hcontents]
        rfl
    have hlabels : labelsOf (l :: code) = labelsOf [l] ++ labelsOf code :=
      labelsOf_append [l] code
    rw [hlabels, ← ih, ← hfirst]
    exact List.filterMap_append

end

/-- The statements of some code are assembled to an image from an origin on. -/
structure Linked (code : Code) (origin : Nat) (rows : List (List Assembly.Statement))
    (image : Assembly.Image) : Prop where
  lines : Rows code rows
  distinct : (labelsOf code).Nodup
  bound : ∀ p ∈ Assembly.placed origin rows.flatten, p.2.Bound image.symbols p.1
  encodes : ∀ p ∈ Assembly.placed origin rows.flatten, p.2.Encodes image.symbols p.1
  bytes : image.code =
    (Assembly.placed origin rows.flatten).flatMap fun p => p.2.bytes image.symbols p.1

theorem linked_of_assemble {lines : List (CodeLine × Source.Origin)}
    (hnamed : ∀ l ∈ lines.map Prod.fst, l.named = true) {file : String}
    {ss : List Assembly.Statement}
    (hread : Assembly.readSource file (codeText lines).text = .ok ss) {origin : Nat}
    {predefined : Assembly.Symbols} {image : Assembly.Image}
    (h : Assembly.assemble origin predefined ss = .ok image) :
    ∃ rows, Linked (lines.map Prod.fst) origin rows image := by
  obtain ⟨hfit, hencodes, rfl⟩ :=
    (Assembly.assemble_eq_ok (Assembly.readSource_formed hread)).mp h
  obtain ⟨rows, hrows, rfl⟩ := rows_of_readSource hnamed hread
  refine ⟨rows, hrows, ?_, Assembly.bound_of_allFit hfit, hencodes, Assembly.code_of_rows _ _⟩
  rw [← hrows.definedNames]
  exact hfit.distinct

theorem setWidth_ofInt {n : Nat} (hn : n ≤ 0xFF) :
    (BitVec.ofInt 8 n).setWidth 16 = BitVec.ofInt 16 n := by
  apply BitVec.eq_of_toNat_eq
  rw [BitVec.ofInt_natCast, BitVec.ofInt_natCast, BitVec.toNat_setWidth, BitVec.toNat_ofNat,
    BitVec.toNat_ofNat]
  omega

/-- The processor finds the operand that was written, for an instruction that it performs. -/
theorem CodeOperand.Reads.place? {o : Assembly.Operand} (h : operand.Reads o)
    (hlabel : operand.isLabel = false)
    (hperform : (c.state.perform m (operand.place c.state)).isSome = true) {opcode : Opcode}
    (hopcode : Assembly.encoding? m o = some opcode) {t : Assembly.Symbols} {after : Nat}
    (hfetched : Assembly.Fetched c m opcode after (o.carried t after opcode.mode)) :
    c.place? opcode.mode = some (operand.place c.state) := by
  have hmode := Assembly.encoding?_mode hopcode
  have hnumber (shape : Assembly.Shape) (n : Nat) :
      Assembly.Operand.carried ⟨shape, .number n⟩ t after opcode.mode = n := by
    simp [Assembly.Operand.carried, Assembly.Operand.symbol?, Assembly.Term.value]
  have habsolute {n : Nat} (hm : opcode.mode = .absolute)
      (hfetched : Assembly.Fetched c m opcode after n) :
      c.place? opcode.mode = some (.cell (BitVec.ofInt 16 n)) := by
    rw [hm, Machine.place?, hfetched.word (by rw [hm]; rfl)]
  cases h with
  | none =>
    -- the shifts without an operand are left out of the processor, so no mode but this is met
    have hplain : Assembly.impliedMode m = .implied := by
      revert hperform
      cases m <;> simp [State.perform, CodeOperand.place, Place.read?, Place.cell?] <;> decide
    have himplied : opcode.mode = .implied := hmode.trans hplain
    rw [himplied]
    rfl
  | immediate hn =>
    have himmediate : opcode.mode = .immediate := hmode
    have hbyte := hfetched.byte (by rw [himmediate]; rfl)
    rw [hnumber] at hbyte
    rw [himmediate, Machine.place?, hbyte]
    rfl
  | byte hn =>
    have hstraight : m.isBranch = false := by
      revert hperform
      cases m <;> simp [State.perform, Mnemonic.isBranch]
    have hzeroPage : opcode.mode = .zeroPage := by
      rw [hmode]
      simp [Assembly.encodingMode, Assembly.directMode, hstraight, Assembly.Operand.symbol?]
    have hbyte := hfetched.byte (by rw [hzeroPage]; rfl)
    rw [hnumber] at hbyte
    rw [hzeroPage, Machine.place?, hbyte, setWidth_ofInt hn]
    rfl
  | wide hn =>
    rw [hnumber] at hfetched
    exact habsolute hmode hfetched
  | absolute hn =>
    rw [hnumber] at hfetched
    exact habsolute hmode hfetched
  | absoluteY hn =>
    have habsoluteY : opcode.mode = .absoluteY := hmode
    have hword := hfetched.word (by rw [habsoluteY]; rfl)
    rw [hnumber] at hword
    rw [habsoluteY, Machine.place?, hword]
    rfl
  | label => simp [CodeOperand.isLabel] at hlabel
  | accumulator => simp [CodeOperand.isLabel] at hlabel

section
variable {code : Code} {origin : Nat} {rows : List (List Assembly.Statement)}
  {image : Assembly.Image} (h : Linked code origin rows image) {line : Nat}

include h

theorem Linked.value? (hl : code[line]? = some (.label name)) :
    image.symbols.value? name = some (lineAddress origin rows line) := by
  obtain ⟨s, hrow, hs⟩ := h.lines.label hl
  have hbound := h.bound _ (mem_placed hrow)
  simpa [Assembly.Statement.Bound, hs] using hbound

/-- An instruction of the code, as it is fetched from the image. -/
theorem Linked.fetched (hl : code[line]? = some (.instruction m operand))
    (hpc : c.pc = BitVec.ofNat 16 (lineAddress origin rows line))
    (hholds : Holds c.state.memory origin image.code) :
    ∃ (o : Assembly.Operand) (opcode : Opcode), operand.Reads o ∧
      Assembly.encoding? m o = some opcode ∧
      o.Encodes image.symbols (lineAddress origin rows (line + 1)) opcode.mode ∧
      Assembly.Fetched c m opcode (lineAddress origin rows (line + 1))
        (o.carried image.symbols (lineAddress origin rows (line + 1)) opcode.mode) := by
  obtain ⟨s, o, hrow, hs, hreads⟩ := h.lines.instruction hl
  have hencodes := h.encodes _ (mem_placed hrow)
  simp only [Assembly.Statement.Encodes, hs] at hencodes
  obtain ⟨opcode, hopcode, hencodes⟩ := hencodes
  have hsize : s.size = opcode.size := by simp [Assembly.Statement.size, hs, hopcode]
  rw [h.bytes] at hholds
  have hstatement : Holds c.state.memory (lineAddress origin rows line)
      (s.bytes image.symbols (lineAddress origin rows line)) :=
    Assembly.holds_statement hholds (flatten_getElem? hrow)
  simp only [Assembly.Statement.bytes, hs, hopcode] at hstatement
  rw [lineAddress_succ hrow, hsize]
  refine ⟨o, opcode, hreads, hopcode, hencodes, ?_⟩
  exact Assembly.fetched_of_holds (List.mem_of_find?_eq_some hopcode) hpc hstatement

theorem Linked.step?_perform (hl : code[line]? = some (.instruction m operand))
    (hlabel : operand.isLabel = false) (hpc : c.pc = BitVec.ofNat 16 (lineAddress origin rows line))
    (hholds : Holds c.state.memory origin image.code) {s : State}
    (hperform : c.state.perform m (operand.place c.state) = some s) :
    c.step? = some ⟨BitVec.ofNat 16 (lineAddress origin rows (line + 1)), s⟩ := by
  obtain ⟨o, opcode, hreads, hopcode, -, hfetched⟩ := h.fetched hl hpc hholds
  have hplace := hreads.place? hlabel (by simp [hperform]) hopcode hfetched
  rw [hfetched.step, Machine.execute?_of_place hplace hperform, hfetched.next]

/-- The symbol that an instruction leads to. The accumulator is no place to go to. -/
theorem Linked.leads (hl : code[line]? = some (.instruction m (.label name)))
    (hm : m.supports .accumulator = false)
    (hpc : c.pc = BitVec.ofNat 16 (lineAddress origin rows line))
    (hholds : Holds c.state.memory origin image.code) :
    ∃ (opcode : Opcode), opcode.mode = Assembly.directMode m true ∧
      Assembly.Operand.Encodes image.symbols (lineAddress origin rows (line + 1)) opcode.mode
        ⟨.direct, .symbol name⟩ ∧
      Assembly.Fetched c m opcode (lineAddress origin rows (line + 1))
        (Assembly.Operand.carried ⟨.direct, .symbol name⟩ image.symbols
          (lineAddress origin rows (line + 1)) opcode.mode) := by
  obtain ⟨o, opcode, hreads, hopcode, hencodes, hfetched⟩ := h.fetched hl hpc hholds
  cases hreads with
  | label => exact ⟨opcode, Assembly.encoding?_mode hopcode, hencodes, hfetched⟩
  | accumulator =>
    have hmode : opcode.mode = .accumulator := Assembly.encoding?_mode hopcode
    have hmem : opcode ∈ m.opcodes := List.mem_of_find?_eq_some hopcode
    have hsupports : m.supports .accumulator = true := by
      rw [Mnemonic.supports, List.contains_iff_mem, ← hmode]
      exact List.mem_map_of_mem hmem
    simp [hm] at hsupports

theorem Linked.step?_jump (hl : code[line]? = some (toLabel .jmp name)) {target : Nat}
    (htarget : code[target]? = some (.label name))
    (hpc : c.pc = BitVec.ofNat 16 (lineAddress origin rows line))
    (hholds : Holds c.state.memory origin image.code) :
    c.step? = some ⟨BitVec.ofNat 16 (lineAddress origin rows target), c.state⟩ := by
  obtain ⟨opcode, hmode, -, hfetched⟩ := h.leads hl (by decide) hpc hholds
  have habsolute : opcode.mode = .absolute := hmode.trans (by decide)
  have hword := hfetched.word (by rw [habsolute]; rfl)
  have hcarried : Assembly.Operand.carried ⟨.direct, .symbol name⟩ image.symbols
      (lineAddress origin rows (line + 1)) opcode.mode = lineAddress origin rows target := by
    simp [Assembly.Operand.carried, habsolute, Assembly.Term.value, h.value? htarget]
  rw [hcarried, BitVec.ofInt_natCast] at hword
  rw [hfetched.step, habsolute, Machine.execute?, if_pos ⟨rfl, rfl⟩, hword]

/-- A branch that is not taken goes on, and one that is taken goes as far from there as its
operand says. -/
theorem Linked.step?_relative (hl : code[line]? = some (toLabel m name)) {taken : Bool}
    (hbranch : c.state.branch? m = some taken)
    (hpc : c.pc = BitVec.ofNat 16 (lineAddress origin rows line))
    (hholds : Holds c.state.memory origin image.code) :
    ∃ n : Nat, image.symbols.value? name = some n ∧
      c.step? = some ⟨BitVec.ofNat 16 (if taken then n else lineAddress origin rows (line + 1)),
        c.state⟩ := by
  have hm : m.supports .accumulator = false ∧ Assembly.directMode m true = .relative := by
    cases m <;> simp [State.branch?] at hbranch <;> decide
  obtain ⟨opcode, hmode, hencodes, hfetched⟩ := h.leads hl hm.1 hpc hholds
  have hrelative : opcode.mode = .relative := hmode.trans hm.2
  obtain ⟨n, hn⟩ := Option.isSome_iff_exists.mp (hencodes.resolves name rfl)
  refine ⟨n, hn, ?_⟩
  have hnext := hfetched.next
  have hbyte := hfetched.byte (by rw [hrelative]; rfl)
  rw [hrelative] at hnext
  have hstep : c.step? = some
      ⟨if taken then c.next .relative + (c.fetch 1).signExtend 16 else c.next .relative,
        c.state⟩ := by
    rw [hfetched.step, hrelative]
    simp [Machine.execute?, hbranch]
  rw [hstep, hnext]
  cases taken with
  | false => rfl
  | true =>
    have hreach := (hencodes.reaches hrelative).1 name rfl n hn
    have hcarried : Assembly.Operand.carried ⟨.direct, .symbol name⟩ image.symbols
        (lineAddress origin rows (line + 1)) opcode.mode =
          n - lineAddress origin rows (line + 1) := by
      simp [Assembly.Operand.carried, hrelative, Assembly.Operand.symbol?, Assembly.Term.value, hn]
    -- the offset is counted from the next instruction
    have hland : BitVec.ofNat 16 (lineAddress origin rows (line + 1)) +
        BitVec.ofInt 16 (n - lineAddress origin rows (line + 1)) = BitVec.ofNat 16 n := by
      rw [← BitVec.ofInt_natCast, ← BitVec.ofInt_natCast, ← BitVec.ofInt_add]
      congr 1
      omega
    rw [hcarried] at hbyte
    simp only [if_true]
    rw [hbyte, Assembly.signExtend_ofInt hreach.1 hreach.2, hland]

/-- A jump or a branch takes the processor where the label stands. -/
theorem Linked.step?_toLabel {p q : Point} (hl : code[p.line]? = some (toLabel m name))
    (hadvance : advance code p = some q) (hholds : Holds p.state.memory origin image.code) :
    (p.machine origin rows).step? = some (q.machine origin rows) := by
  have hl' : code[p.line]? = some (.instruction m (.label name)) := hl
  simp only [advance, hl'] at hadvance
  by_cases hm : m = .jmp
  · subst hm
    simp only [if_true, Option.map_eq_some_iff] at hadvance
    obtain ⟨target, htarget, rfl⟩ := hadvance
    exact h.step?_jump hl (getElem?_of_lineOf? htarget) rfl hholds
  · simp only [hm, if_false] at hadvance
    cases hbranch : p.state.branch? m with
    | none => simp [hbranch] at hadvance
    | some taken =>
      simp only [hbranch] at hadvance
      obtain ⟨n, hn, hstep⟩ := h.step?_relative hl (c := p.machine origin rows) hbranch rfl hholds
      rw [hstep]
      cases taken with
      | false =>
        obtain rfl := Option.some.inj hadvance
        rfl
      | true =>
        obtain ⟨target, htarget, rfl⟩ := Option.map_eq_some_iff.mp hadvance
        have hvalue := h.value? (getElem?_of_lineOf? htarget)
        rw [hn] at hvalue
        rw [Option.some.inj hvalue]
        rfl

/-- One line takes the processor at most one step. -/
theorem Linked.reaches_of_advance {p q : Point} (hadvance : advance code p = some q)
    (hholds : Holds p.state.memory origin image.code) :
    Machine.Reaches (p.machine origin rows) (q.machine origin rows) := by
  -- a line without bytes leaves the processor where it is
  have hstays (hsame : lineAddress origin rows (p.line + 1) = lineAddress origin rows p.line) :
      Machine.Reaches (p.machine origin rows) (Point.machine origin rows ⟨p.line + 1, p.state⟩) := by
    unfold Point.machine
    rw [hsame]
  cases hl : code[p.line]? with
  | none => simp [advance, hl] at hadvance
  | some l =>
  cases l with
  | label name =>
    obtain rfl : _ = q := by simpa [advance, hl] using hadvance
    obtain ⟨s, hrow, hs⟩ := h.lines.label hl
    have hsize : s.size = 0 := by simp [Assembly.Statement.size, hs]
    apply hstays
    rw [lineAddress_succ hrow, hsize, Nat.add_zero]
  | empty =>
    obtain rfl : _ = q := by simpa [advance, hl] using hadvance
    exact hstays (lineAddress_succ_of_nil (h.lines.empty hl))
  | written mnemonic operand => simp [advance, hl] at hadvance
  | instruction m operand =>
    by_cases hlabel : operand.isLabel = true
    · obtain ⟨name, rfl⟩ : ∃ name, operand = .label name := by
        cases operand <;> simp_all [CodeOperand.isLabel]
      exact .single (h.step?_toLabel hl hadvance hholds)
    · have hperform : ∃ s, p.state.perform m (operand.place p.state) = some s ∧
          ⟨p.line + 1, s⟩ = q := by
        cases operand <;> simp_all [advance, CodeOperand.isLabel]
      obtain ⟨s, hs, rfl⟩ := hperform
      exact .single (h.step?_perform hl (by simpa using hlabel) rfl hholds hs)

/-- A run that leaves the image alone is a run of the processor. -/
theorem Linked.reaches_of_runs {writable : Word → Prop}
    (hwritable : ∀ b, Occupied origin image.code b → ¬writable b) {p q : Point}
    (hruns : Runs code writable p q) (hholds : Holds p.state.memory origin image.code) :
    Machine.Reaches (p.machine origin rows) (q.machine origin rows) := by
  induction hruns using Relation.ReflTransGen.head_induction_on with
  | refl => exact .refl
  | head hstep _ ih =>
    have hkept := hholds.congr fun b hb => hstep.2 b (hwritable b hb)
    exact (h.reaches_of_advance hstep.1 hholds).trans (ih hkept)

theorem Linked.decode?_leave {function : String} (hl : code[line]? = some (leaveCode function))
    (hpc : c.pc = BitVec.ofNat 16 (lineAddress origin rows line))
    (hholds : Holds c.state.memory origin image.code) :
    decode? (c.fetch 0) = some (if isEntry function then .brk else .rts, .implied) := by
  obtain ⟨o, opcode, hreads, hopcode, -, hfetched⟩ := h.fetched hl hpc hholds
  have hmode := Assembly.encoding?_mode hopcode
  cases hreads
  have himplied : opcode.mode = .implied := by
    rw [hmode]
    cases isEntry function <;> decide
  rw [hfetched.decoded, himplied]

end

end Toolchain6502.C
