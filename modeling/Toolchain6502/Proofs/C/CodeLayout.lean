import Toolchain6502.Proofs.C.ImageRun

namespace Toolchain6502.C

open Cpu Text

variable {name : String} {m : Mnemonic} {line : Nat}

/-- The mode that an operand is written for. -/
def CodeOperand.mode (m : Mnemonic) : CodeOperand → Mode
  | none => .implied
  | immediate _ => .immediate
  | zeroPage _ => .zeroPage
  | absolute _ => .absolute
  | absoluteY _ => .absoluteY
  | label _ => if m.isBranch then .relative else .absolute

/-- The mnemonic has the mode of the operand, and a number has its width. Names are for jumps. -/
def CodeOperand.suits (m : Mnemonic) : CodeOperand → Bool
  | none => m.supports .implied
  | immediate value => m.supports .immediate && (0 ≤ value && value ≤ 0xFF)
  | zeroPage address => m.supports .zeroPage && (0 ≤ address && address ≤ 0xFF)
  | absolute address => m.supports .absolute && (0 ≤ address && address ≤ 0xFFFF)
  | absoluteY address => m.supports .absoluteY && (0 ≤ address && address ≤ 0xFFFF)
  | label _ => m.isBranch || m = .jmp || m = .jsr

def CodeLine.fits : CodeLine → Bool
  | instruction m operand => operand.suits m
  | written _ _ => false
  | label _ | empty => true

def CodeLine.size : CodeLine → Nat
  | instruction m operand => 1 + (operand.mode m).operandSize
  | _ => 0

def codeSize (code : Code) : Nat := (code.map CodeLine.size).sum

@[simp]
theorem codeSize_nil : codeSize [] = 0 := rfl

@[simp]
theorem codeSize_cons (l : CodeLine) (code : Code) :
    codeSize (l :: code) = l.size + codeSize code := by
  simp [codeSize]

@[simp]
theorem codeSize_append (first second : Code) :
    codeSize (first ++ second) = codeSize first + codeSize second := by
  simp [codeSize]

/-- Operands have a name for the accumulator. -/
def isAccumulator (name : String) : Bool := name = "A" || name = "a"

def CodeOperand.operand : CodeOperand → Assembly.Operand
  | none => .implied
  | immediate value => ⟨.fixed .immediate, .number value.toNat⟩
  | zeroPage address => ⟨.direct, .number address.toNat⟩
  | absolute address => ⟨.fixed .absolute, .number address.toNat⟩
  | absoluteY address => ⟨.fixed .absoluteY, .number address.toNat⟩
  | label name =>
    if isAccumulator name then ⟨.fixed .accumulator, .number 0⟩ else ⟨.direct, .symbol name⟩

def CodeLine.contents : CodeLine → List Assembly.Content
  | label name => [.label name]
  | instruction m operand => [.instruction m operand.operand]
  | written _ _ | empty => []

theorem firstForm?_label (hname : Assembly.isSymbol name.toList = true) :
    Assembly.firstForm? name.toList Assembly.forms = .ok (some (CodeOperand.label name).operand) := by
  have hletter (c : Char) : name.toList = [c] ↔ name = String.ofList [c] :=
    ⟨fun h => by rw [← h, String.ofList_toList], fun h => by rw [h, String.toList_ofList]⟩
  rw [Assembly.firstForm?_symbol hname]
  simp only [hletter, String.ofList_toList, CodeOperand.operand, isAccumulator, Bool.or_eq_true,
    decide_eq_true_eq]

/-- A number that has the width of its form is what is read. -/
theorem CodeOperand.firstForm?_text {operand : CodeOperand} (hnamed : operand.named = true)
    (hne : operand ≠ none) (hsuits : operand.suits m = true) :
    Assembly.firstForm? operand.text.toList Assembly.forms = .ok (some operand.operand) := by
  cases operand with
  | none => exact absurd rfl hne
  | label name => exact firstForm?_label hnamed
  | immediate value =>
    simp only [suits, Bool.and_eq_true, decide_eq_true_eq] at hsuits
    obtain ⟨n, rfl⟩ := Int.eq_ofNat_of_zero_le hsuits.2.1
    rw [immediate_toList, Assembly.firstForm?_immediate (by omega)]
    rfl
  | zeroPage address =>
    simp only [suits, Bool.and_eq_true, decide_eq_true_eq] at hsuits
    obtain ⟨n, rfl⟩ := Int.eq_ofNat_of_zero_le hsuits.2.1
    rw [zeroPage_toList, Assembly.firstForm?_byte (by omega)]
    rfl
  | absolute address =>
    simp only [suits, Bool.and_eq_true, decide_eq_true_eq] at hsuits
    obtain ⟨n, rfl⟩ := Int.eq_ofNat_of_zero_le hsuits.2.1
    rw [absolute_toList, Assembly.firstForm?_word (by omega)]
    rfl
  | absoluteY address =>
    simp only [suits, Bool.and_eq_true, decide_eq_true_eq] at hsuits
    obtain ⟨n, rfl⟩ := Int.eq_ofNat_of_zero_le hsuits.2.1
    rw [absoluteY_toList, Assembly.firstForm?_indexedWord (by omega)]
    rfl

theorem CodeLine.readContents_text {l : CodeLine} (hnamed : l.named = true)
    (hfits : l.fits = true) : Assembly.readContents l.text.toList = .ok l.contents := by
  cases l with
  | label name =>
    have hline : (label name).text.toList = name.toList ++ [':'] := by simp [text]
    rw [hline, Assembly.readContents_label hnamed, String.ofList_toList]
    rfl
  | instruction m operand =>
    by_cases hnone : operand = .none
    · subst hnone
      have hline := plain_toList m
      rw [plain] at hline
      rw [hline, Assembly.readContents_mnemonic m (by simp) (by simp) (by simp [trimLeft]) (by simp)]
      rfl
    · have hne := CodeOperand.text_ne hnamed hnone
      rw [instruction_toList m hne,
        Assembly.readContents_instruction m hne (CodeOperand.text_ink hnamed)]
      exact ⟨operand.operand, CodeOperand.firstForm?_text hnamed hnone hfits, rfl⟩
  | written m operand => simp [named] at hnamed
  | empty => rfl

/-- Rows that hold just what the lines of some code say. -/
def Spelled (code : Code) (rows : List (List Assembly.Statement)) : Prop :=
  List.Forall₂ (fun l row => row.map Assembly.Statement.content = l.contents) code rows

theorem exists_spelled {code : Code} (hnamed : ∀ l ∈ code, l.named = true)
    (hfits : ∀ l ∈ code, l.fits = true) (file : String) (number : Nat) :
    ∃ rows, Spelled code rows ∧
      Assembly.readLinesFrom file number (code.map CodeLine.text) = .ok rows.flatten := by
  induction code generalizing number with
  | nil => exact ⟨[], .nil, rfl⟩
  | cons l code ih =>
    rw [List.forall_mem_cons] at hnamed hfits
    obtain ⟨rows, hrows, hread⟩ := ih hnamed.2 hfits.2 (number + 1)
    let row : List Assembly.Statement :=
      l.contents.map fun c => ⟨c, { file, line := number }, l.text⟩
    refine ⟨row :: rows, .cons (by simp [row, Function.comp_def]) hrows, ?_⟩
    refine bind_eq_ok.mpr ⟨row, ?_, bind_eq_ok.mpr ⟨rows.flatten, hread, rfl⟩⟩
    unfold Assembly.readLine
    rw [CodeLine.readContents_text hnamed.1 hfits.1]

/-- Generated code whose lines fit is read, line by line. -/
theorem readSource_codeText {lines : List (CodeLine × Source.Origin)}
    (hnamed : ∀ l ∈ lines.map Prod.fst, l.named = true)
    (hfits : ∀ l ∈ lines.map Prod.fst, l.fits = true) (file : String) :
    ∃ rows, Spelled (lines.map Prod.fst) rows ∧
      Assembly.readSource file (codeText lines).text = .ok rows.flatten := by
  unfold Assembly.readSource
  rw [lines_codeText hnamed]
  exact exists_spelled hnamed hfits file 1

/-- The line takes the accumulator for a place in the code. -/
def CodeLine.reserved : CodeLine → Bool
  | instruction _ (.label name) => isAccumulator name
  | _ => false

theorem opcode?_of_supports {mode : Mode} (h : m.supports mode = true) :
    ∃ opcode, m.opcode? mode = some opcode ∧ opcode.mode = mode := by
  rw [Mnemonic.supports, List.contains_iff_mem] at h
  obtain ⟨opcode, hmem, hmode⟩ := List.mem_map.mp h
  have hsome : (m.opcode? mode).isSome = true := by
    rw [Mnemonic.opcode?, List.find?_isSome]
    exact ⟨opcode, hmem, by simpa using hmode⟩
  obtain ⟨found, hfound⟩ := Option.isSome_iff_exists.mp hsome
  exact ⟨found, hfound, by simpa using List.find?_some hfound⟩

theorem encodingMode_label (h : (CodeOperand.label name).suits m = true) :
    Assembly.encodingMode m ⟨.direct, .symbol name⟩ = (CodeOperand.label name).mode m ∧
      m.supports ((CodeOperand.label name).mode m) = true := by
  simp only [CodeOperand.suits, Bool.or_eq_true, decide_eq_true_eq] at h
  rcases h with (h | rfl) | rfl
  · have hrelative : m.supports .relative = true := by
      revert h
      cases m <;> decide
    simp [Assembly.encodingMode, Assembly.directMode, CodeOperand.mode, h, hrelative]
  · exact ⟨rfl, rfl⟩
  · exact ⟨rfl, rfl⟩

theorem CodeLine.encoding {operand : CodeOperand} (hfits : (instruction m operand).fits = true)
    (hfree : (instruction m operand).reserved = false) :
    ∃ opcode, Assembly.encoding? m operand.operand = some opcode ∧ opcode.mode = operand.mode m := by
  have hmode : Assembly.encodingMode m operand.operand = operand.mode m ∧
      m.supports (operand.mode m) = true := by
    cases operand with
    | none =>
      have hm : m.supports .implied = true := hfits
      exact ⟨by simp [CodeOperand.operand, Assembly.Operand.implied, Assembly.encodingMode,
        Assembly.impliedMode, hm, CodeOperand.mode], hm⟩
    | label name =>
      have hname : isAccumulator name = false := hfree
      rw [CodeOperand.operand, hname]
      exact encodingMode_label hfits
    | zeroPage address =>
      have hm : m.supports .zeroPage = true := (Bool.and_eq_true_iff.mp hfits).1
      have hstraight : m.isBranch = false := by
        revert hm
        cases m <;> decide
      exact ⟨by simp [CodeOperand.operand, Assembly.encodingMode, Assembly.directMode,
        Assembly.Operand.symbol?, hstraight, CodeOperand.mode], hm⟩
    | absoluteY address =>
      exact ⟨by simp [CodeOperand.operand, Assembly.encodingMode, Assembly.Operand.symbol?,
        CodeOperand.mode], (Bool.and_eq_true_iff.mp hfits).1⟩
    | immediate value => exact ⟨rfl, (Bool.and_eq_true_iff.mp hfits).1⟩
    | absolute address => exact ⟨rfl, (Bool.and_eq_true_iff.mp hfits).1⟩
  unfold Assembly.encoding?
  rw [hmode.1]
  exact opcode?_of_supports hmode.2

/-- There is no jump to the accumulator. -/
theorem CodeLine.encoding?_reserved {operand : CodeOperand}
    (hfits : (instruction m operand).fits = true)
    (hreserved : (instruction m operand).reserved = true) :
    Assembly.encoding? m operand.operand = none := by
  cases operand with
  | label name =>
    have hname : isAccumulator name = true := hreserved
    have hm : m.isBranch = true ∨ m = .jmp ∨ m = .jsr := by
      simpa [fits, CodeOperand.suits, or_assoc] using hfits
    have hnone : m.opcode? .accumulator = none := by
      revert hm
      cases m <;> decide
    rw [CodeOperand.operand, hname]
    exact hnone
  | _ => simp [reserved] at hreserved

theorem CodeOperand.reads_operand {operand : CodeOperand} (h : operand.suits m = true) :
    operand.Reads operand.operand := by
  cases operand with
  | none => exact .none
  | label name =>
    rw [CodeOperand.operand]
    split
    · exact .accumulator
    · exact .label
  | immediate _ | zeroPage _ | absolute _ | absoluteY _ =>
    exact reads_of_firstForm? rfl (by simp) (firstForm?_text rfl (by simp) h)

theorem sizes_of_contents {l : CodeLine} (hfits : l.fits = true) (hfree : l.reserved = false)
    {row : List Assembly.Statement} (hrow : row.map Assembly.Statement.content = l.contents) :
    (row.map Assembly.Statement.size).sum = l.size := by
  cases l with
  | label name =>
    obtain ⟨s, rfl, hs⟩ := List.map_eq_singleton_iff.mp hrow
    simp [Assembly.Statement.size, hs, CodeLine.size]
  | instruction m operand =>
    obtain ⟨s, rfl, hs⟩ := List.map_eq_singleton_iff.mp hrow
    obtain ⟨opcode, hopcode, hmode⟩ := CodeLine.encoding hfits hfree
    simp [Assembly.Statement.size, hs, hopcode, Opcode.size, hmode, CodeLine.size]
  | written m operand => simp [CodeLine.fits] at hfits
  | empty =>
    rw [List.map_eq_nil_iff.mp hrow]
    rfl

section

variable {code : Code} {rows : List (List Assembly.Statement)} (h : Spelled code rows)

include h

theorem Spelled.toRows (hfits : ∀ l ∈ code, l.fits = true) : Rows code rows := by
  induction h with
  | nil => exact .nil
  | @cons l row code rows hrow _ ih =>
    rw [List.forall_mem_cons] at hfits
    refine .cons ?_ (ih hfits.2)
    rw [hrow]
    cases l with
    | label name => exact .label
    | instruction m operand => exact .instruction (CodeOperand.reads_operand hfits.1)
    | written m operand => simp [CodeLine.fits] at hfits
    | empty => exact .empty

theorem Spelled.sizes (hfits : ∀ l ∈ code, l.fits = true)
    (hfree : ∀ l ∈ code, l.reserved = false) :
    (rows.flatten.map Assembly.Statement.size).sum = codeSize code := by
  induction h with
  | nil => rfl
  | @cons l row code rows hrow _ ih =>
    rw [List.forall_mem_cons] at hfits hfree
    rw [List.flatten_cons, List.map_append, List.sum_append, codeSize_cons,
      sizes_of_contents hfits.1 hfree.1 hrow, ih hfits.2 hfree.2]

/-- A line begins behind the sizes of the lines before it. -/
theorem Spelled.lineAddress_eq (hfits : ∀ l ∈ code, l.fits = true)
    (hfree : ∀ l ∈ code, l.reserved = false) (origin line : Nat) :
    lineAddress origin rows line = origin + codeSize (code.take line) := by
  have hbefore : Spelled (code.take line) (rows.take line) := List.forall₂_take line h
  have hsizes := hbefore.sizes (fun l hl => hfits l (List.mem_of_mem_take hl))
    (fun l hl => hfree l (List.mem_of_mem_take hl))
  have htake : rows.flatten.take (rows.take line).flatten.length = (rows.take line).flatten := by
    conv_lhs => rw [← List.take_append_drop line rows, List.flatten_append]
    simp
  rw [lineAddress, Assembly.addressAt, htake, hsizes]

theorem Spelled.exists_line {k : Nat} {s : Assembly.Statement} (hs : rows.flatten[k]? = some s) :
    ∃ line l, code[line]? = some l ∧ l.contents = [s.content] ∧ rows[line]? = some [s] ∧
      k = (rows.take line).flatten.length := by
  induction h generalizing k with
  | nil => simp at hs
  | @cons l row code rows hrow _ ih =>
    -- The index is in the first row, which holds one statement at most, or in a later one.
    by_cases hk : k < row.length
    · have hsingle : row.length ≤ 1 := by
        have hlength := congrArg List.length hrow
        rw [List.length_map] at hlength
        rw [hlength]
        cases l <;> simp [CodeLine.contents]
      obtain rfl : k = 0 := by omega
      obtain ⟨t, rfl⟩ := List.length_eq_one_iff.mp (by omega : row.length = 1)
      obtain rfl : t = s := by simpa using hs
      exact ⟨0, l, rfl, by simpa using hrow.symm, rfl, rfl⟩
    · rw [List.flatten_cons, List.getElem?_append_right (by omega)] at hs
      obtain ⟨line, l', hl', hcontents, hrow', hindex⟩ := ih hs
      refine ⟨line + 1, l', hl', hcontents, hrow', ?_⟩
      rw [List.take_succ_cons, List.flatten_cons, List.length_append]
      omega

theorem Spelled.label (hl : code[line]? = some (.label name)) :
    ∃ s : Assembly.Statement, rows[line]? = some [s] ∧ s.content = .label name := by
  obtain ⟨row, hrow, hcontents⟩ := forall₂_getElem? h hl
  obtain ⟨s, rfl, hs⟩ := List.map_eq_singleton_iff.mp hcontents
  exact ⟨s, hrow, hs⟩

theorem Spelled.instruction {operand : CodeOperand}
    (hl : code[line]? = some (.instruction m operand)) :
    ∃ s : Assembly.Statement, rows[line]? = some [s] ∧
      s.content = .instruction m operand.operand := by
  obtain ⟨row, hrow, hcontents⟩ := forall₂_getElem? h hl
  obtain ⟨s, rfl, hs⟩ := List.map_eq_singleton_iff.mp hcontents
  exact ⟨s, hrow, hs⟩

theorem Spelled.value? (hfits : ∀ l ∈ code, l.fits = true) (hfree : ∀ l ∈ code, l.reserved = false)
    {origin : Nat} (hfit : Assembly.AllFit [] origin rows.flatten)
    (hl : code[line]? = some (.label name)) :
    (Assembly.tableAfter [] origin rows.flatten).value? name =
      some (origin + codeSize (code.take line)) := by
  obtain ⟨s, hrow, hs⟩ := h.label hl
  have hbound := Assembly.bound_of_allFit hfit _ (mem_placed hrow)
  rw [h.lineAddress_eq hfits hfree] at hbound
  simpa [Assembly.Statement.Bound, hs] using hbound

end

def targetsOf (code : Code) : List String :=
  code.filterMap fun
    | .instruction _ (.label name) => some name
    | _ => none

/-- Every branch is near enough to the label that it leads to. -/
def Near (code : Code) : Prop :=
  ∀ (line target : Nat) (m : Mnemonic) (name : String), code[line]? = some (toLabel m name) →
    m.isBranch = true → code[target]? = some (.label name) →
      -128 ≤ (codeSize (code.take target) : Int) - codeSize (code.take (line + 1)) ∧
        (codeSize (code.take target) : Int) - codeSize (code.take (line + 1)) ≤ 127

theorem mem_labelsOf {code : Code} :
    name ∈ labelsOf code ↔ ∃ line : Nat, code[line]? = some (.label name) := by
  rw [labelsOf, List.mem_filterMap]
  constructor
  · rintro ⟨l, hl, hname⟩
    obtain ⟨line, hline⟩ := List.getElem?_of_mem hl
    cases l <;> simp at hname
    exact ⟨line, hname ▸ hline⟩
  · rintro ⟨line, hline⟩
    exact ⟨_, List.mem_of_getElem? hline, rfl⟩

section

variable {code : Code} {rows : List (List Assembly.Statement)} (h : Spelled code rows)
  (hfits : ∀ l ∈ code, l.fits = true) {origin : Nat}

include h

theorem Spelled.contents_of_mem {s : Assembly.Statement} (hs : s ∈ rows.flatten) :
    ∃ l ∈ code, l.contents = [s.content] := by
  obtain ⟨k, hk⟩ := List.getElem?_of_mem hs
  obtain ⟨line, l, hl, hcontents, -⟩ := h.exists_line hk
  exact ⟨l, List.mem_of_getElem? hl, hcontents⟩

theorem Spelled.ne_constant : ∀ s ∈ rows.flatten, ∀ (name : String)
    (value : Assembly.ConstantValue), s.content ≠ .constant name value := by
  intro s hs name value hc
  obtain ⟨l, -, hcontents⟩ := h.contents_of_mem hs
  cases l <;> simp [CodeLine.contents, hc] at hcontents

include hfits

theorem Spelled.reserved_eq_false
    (hencodes : ∀ p ∈ Assembly.placed origin rows.flatten,
      p.2.Encodes (Assembly.tableAfter [] origin rows.flatten) p.1) :
    ∀ l ∈ code, l.reserved = false := by
  intro l hl
  obtain ⟨line, hline⟩ := List.getElem?_of_mem hl
  cases l with
  | instruction m operand =>
    obtain ⟨s, hrow, hs⟩ := h.instruction hline
    have hs' := hencodes _ (mem_placed hrow)
    simp only [Assembly.Statement.Encodes, hs] at hs'
    obtain ⟨opcode, hopcode, -⟩ := hs'
    by_contra hreserved
    rw [CodeLine.encoding?_reserved (hfits _ hl) (by simpa using hreserved)] at hopcode
    simp at hopcode
  | _ => rfl

theorem Spelled.near (hfree : ∀ l ∈ code, l.reserved = false)
    (hfit : Assembly.AllFit [] origin rows.flatten)
    (hencodes : ∀ p ∈ Assembly.placed origin rows.flatten,
      p.2.Encodes (Assembly.tableAfter [] origin rows.flatten) p.1) : Near code := by
  intro line target m name hline hm htarget
  obtain ⟨s, hrow, hs⟩ := h.instruction hline
  have hl := List.mem_of_getElem? hline
  obtain ⟨opcode, hopcode, hmode⟩ := CodeLine.encoding (hfits _ hl) (hfree _ hl)
  have hname : isAccumulator name = false := hfree _ hl
  have hs' := hencodes _ (mem_placed hrow)
  simp only [Assembly.Statement.Encodes, hs, hopcode, Option.some.injEq, exists_eq_left'] at hs'
  have hsize : s.size = opcode.size := by simp [Assembly.Statement.size, hs, hopcode]
  -- A branch counts from the instruction behind it, which is where the next line begins.
  rw [← hsize, ← lineAddress_succ hrow, h.lineAddress_eq hfits hfree] at hs'
  have hrelative : opcode.mode = .relative := by rw [hmode, CodeOperand.mode, if_pos hm]
  have hsymbol : (CodeOperand.label name).operand.symbol? = some name := by
    simp [CodeOperand.operand, hname, Assembly.Operand.symbol?]
  have hreach := (hs'.reaches hrelative).1 name hsymbol _ (h.value? hfits hfree hfit htarget)
  omega

theorem Spelled.allFit (hfree : ∀ l ∈ code, l.reserved = false)
    (hdistinct : (labelsOf code).Nodup) (hends : origin + codeSize code ≤ 0x10000) :
    Assembly.AllFit [] origin rows.flatten := by
  apply Assembly.allFit_of_distinct h.ne_constant
  · rwa [(h.toRows hfits).definedNames]
  · intro s hs m o hc
    obtain ⟨l, hl, hcontents⟩ := h.contents_of_mem hs
    cases l <;> simp [CodeLine.contents, hc] at hcontents
    obtain ⟨rfl, rfl⟩ := hcontents
    obtain ⟨opcode, hopcode, -⟩ := CodeLine.encoding (hfits _ hl) (hfree _ hl)
    rw [hopcode]
    rfl
  · rw [h.sizes hfits hfree]
    exact hends

/-- The operand of an instruction encodes in the mode that it is written for. -/
theorem Spelled.encodes_operand (hfree : ∀ l ∈ code, l.reserved = false)
    (hfit : Assembly.AllFit [] origin rows.flatten)
    (hknown : ∀ name ∈ targetsOf code, name ∈ labelsOf code) (hnear : Near code)
    {operand : CodeOperand} (hl : code[line]? = some (.instruction m operand)) :
    operand.operand.Encodes (Assembly.tableAfter [] origin rows.flatten)
      (origin + codeSize (code.take (line + 1))) (operand.mode m) := by
  have hmem := List.mem_of_getElem? hl
  -- Names are looked up, and a branch has to reach what is found. A number encodes anywhere.
  cases operand with
  | label name =>
    have hname : isAccumulator name = false := hfree _ hmem
    have hoperand : (CodeOperand.label name).operand = ⟨.direct, .symbol name⟩ := by
      simp [CodeOperand.operand, hname]
    obtain ⟨target, htarget⟩ :=
      mem_labelsOf.mp (hknown name (List.mem_filterMap.mpr ⟨_, hmem, rfl⟩))
    have hvalue := h.value? hfits hfree hfit htarget
    rw [hoperand]
    refine ⟨?_, ?_, ?_⟩
    · rintro name' hname'
      obtain rfl : name = name' := Option.some.inj hname'
      rw [hvalue]
      rfl
    · intro name' hmode
      by_cases hm : m.isBranch = true <;>
        simp [CodeOperand.mode, hm, Assembly.pageZeroModes] at hmode
    · intro hmode
      have hm : m.isBranch = true := by
        by_contra hm
        simp [CodeOperand.mode, hm] at hmode
      refine ⟨?_, by simp⟩
      intro name' hname' n hn
      obtain rfl : name = name' := Option.some.inj hname'
      obtain rfl := Option.some.inj (hvalue.symm.trans hn)
      have hreach := hnear line target m name hl hm htarget
      omega
  | none | immediate _ | zeroPage _ | absolute _ | absoluteY _ =>
    refine ⟨Assembly.Operand.resolves_of_none rfl, ?_, ?_⟩
    · simp [Assembly.Operand.Narrow, CodeOperand.operand, Assembly.Operand.implied,
        Assembly.Operand.symbol?]
    · simp [Assembly.Operand.Reaches, CodeOperand.mode]

theorem Spelled.encodes (hfree : ∀ l ∈ code, l.reserved = false)
    (hfit : Assembly.AllFit [] origin rows.flatten)
    (hknown : ∀ name ∈ targetsOf code, name ∈ labelsOf code) (hnear : Near code) :
    ∀ p ∈ Assembly.placed origin rows.flatten,
      p.2.Encodes (Assembly.tableAfter [] origin rows.flatten) p.1 := by
  intro p hp
  obtain ⟨k, hk⟩ := List.getElem?_of_mem hp
  rw [Assembly.placed_getElem?] at hk
  obtain ⟨s, hs, rfl⟩ := Option.map_eq_some_iff.mp hk
  obtain ⟨line, l, hl, hcontents, hrow, hindex⟩ := h.exists_line hs
  cases l with
  | instruction m operand =>
    have hc : s.content = .instruction m operand.operand := (List.cons.inj hcontents).1.symm
    have hmem := List.mem_of_getElem? hl
    obtain ⟨opcode, hopcode, hmode⟩ := CodeLine.encoding (hfits _ hmem) (hfree _ hmem)
    have hsize : s.size = opcode.size := by simp [Assembly.Statement.size, hc, hopcode]
    have hnext : Assembly.addressAt origin rows.flatten k + opcode.size =
        origin + codeSize (code.take (line + 1)) := by
      rw [← hsize, hindex, ← h.lineAddress_eq hfits hfree, lineAddress_succ hrow, lineAddress]
    simp only [Assembly.Statement.Encodes, hc]
    refine ⟨opcode, hopcode, ?_⟩
    rw [hnext, hmode]
    exact h.encodes_operand hfits hfree hfit hknown hnear hl
  | label name =>
    have hc : s.content = .label name := (List.cons.inj hcontents).1.symm
    simp [Assembly.Statement.Encodes, hc]
  | written m operand => simp [CodeLine.contents] at hcontents
  | empty => simp [CodeLine.contents] at hcontents

/-- Code whose names are all known is assembled just when no place in it is named like the
accumulator, no label comes twice and every branch is near its label. -/
theorem Spelled.assembles_iff (hformed : ∀ s ∈ rows.flatten, s.content.Formed)
    (hknown : ∀ name ∈ targetsOf code, name ∈ labelsOf code)
    (hends : origin + codeSize code ≤ 0x10000) :
    (∃ image, Assembly.assemble origin [] rows.flatten = .ok image) ↔
      (∀ l ∈ code, l.reserved = false) ∧ (labelsOf code).Nodup ∧ Near code := by
  constructor
  · rintro ⟨image, himage⟩
    obtain ⟨hfit, hencodes, -⟩ := (Assembly.assemble_eq_ok hformed).mp himage
    have hfree := h.reserved_eq_false hfits hencodes
    refine ⟨hfree, ?_, h.near hfits hfree hfit hencodes⟩
    rw [← (h.toRows hfits).definedNames]
    exact hfit.distinct
  · rintro ⟨hfree, hdistinct, hnear⟩
    have hfit := h.allFit hfits hfree hdistinct hends
    have hencodes := h.encodes hfits hfree hfit hknown hnear
    exact ⟨_, (Assembly.assemble_eq_ok hformed).mpr ⟨hfit, hencodes, rfl⟩⟩

theorem Spelled.image_labels (hformed : ∀ s ∈ rows.flatten, s.content.Formed)
    {image : Assembly.Image} (himage : Assembly.assemble origin [] rows.flatten = .ok image) :
    image.labels.map Prod.fst = labelsOf code := by
  obtain ⟨-, -, rfl⟩ := (Assembly.assemble_eq_ok hformed).mp himage
  rw [← (h.toRows hfits).definedNames]
  exact Assembly.labels_tableAfter h.ne_constant

end

end Toolchain6502.C
