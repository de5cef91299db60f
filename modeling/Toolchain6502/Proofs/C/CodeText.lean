import Mathlib.Data.List.Forall2
import Toolchain6502.C.Emitter
import Toolchain6502.Proofs.Assembly.WrittenOperand

namespace Toolchain6502.C

open Cpu Text

/-- What an operand is read as, where it is accepted. A name of one letter may be taken for the
accumulator. -/
inductive CodeOperand.Reads : CodeOperand → Assembly.Operand → Prop
  | none : Reads .none .implied
  | immediate {n : Nat} (hn : n ≤ 0xFF) : Reads (.immediate n) ⟨.fixed .immediate, .number n⟩
  | byte {n : Nat} (hn : n ≤ 0xFF) : Reads (.zeroPage n) ⟨.direct, .number n⟩
  | wide {n : Nat} (hn : n ≤ 0xFFFF) : Reads (.zeroPage n) ⟨.fixed .absolute, .number n⟩
  | absolute {n : Nat} (hn : n ≤ 0xFFFF) : Reads (.absolute n) ⟨.fixed .absolute, .number n⟩
  | absoluteY {n : Nat} (hn : n ≤ 0xFFFF) : Reads (.absoluteY n) ⟨.fixed .absoluteY, .number n⟩
  | label {name : String} : Reads (.label name) ⟨.direct, .symbol name⟩
  | accumulator {name : String} : Reads (.label name) ⟨.fixed .accumulator, .number 0⟩

inductive CodeLine.Reads : CodeLine → List Assembly.Content → Prop
  | label {name : String} : Reads (.label name) [.label name]
  | instruction {m : Mnemonic} {operand : CodeOperand} {o : Assembly.Operand}
      (h : operand.Reads o) : Reads (.instruction m operand) [.instruction m o]
  | empty : Reads .empty []

def CodeOperand.named : CodeOperand → Bool
  | label name => Assembly.isSymbol name.toList
  | _ => true

def CodeLine.named : CodeLine → Bool
  | label name => Assembly.isSymbol name.toList
  | instruction _ operand => operand.named
  | written _ _ => false
  | empty => true

namespace CodeOperand

theorem immediate_toList (v : Int) :
    (immediate v).text.toList = '#' :: '$' :: (hex 2 v).toList := by
  simp [text, ToString.toString]

theorem zeroPage_toList (a : Int) : (zeroPage a).text.toList = '$' :: (hex 2 a).toList := by
  simp [text, ToString.toString]

theorem absolute_toList (a : Int) : (absolute a).text.toList = '$' :: (hex 4 a).toList := by
  simp [text, ToString.toString]

theorem absoluteY_toList (a : Int) :
    (absoluteY a).text.toList = '$' :: ((hex 4 a).toList ++ [',', 'Y']) := by
  simp [text, ToString.toString]

theorem text_ink {operand : CodeOperand} (hnamed : operand.named = true) :
    ∀ c ∈ operand.text.toList, Assembly.isInk c = true := by
  intro c hc
  cases operand with
  | none => simp [text] at hc
  | immediate v =>
    rw [immediate_toList, List.mem_cons, List.mem_cons] at hc
    rcases hc with rfl | rfl | hc
    · rfl
    · rfl
    · exact Assembly.isInk_of_mem_hex hc
  | zeroPage a =>
    rw [zeroPage_toList, List.mem_cons] at hc
    rcases hc with rfl | hc
    · rfl
    · exact Assembly.isInk_of_mem_hex hc
  | absolute a =>
    rw [absolute_toList, List.mem_cons] at hc
    rcases hc with rfl | hc
    · rfl
    · exact Assembly.isInk_of_mem_hex hc
  | absoluteY a =>
    rw [absoluteY_toList, List.mem_cons, List.mem_append] at hc
    rcases hc with rfl | hc | hc
    · rfl
    · exact Assembly.isInk_of_mem_hex hc
    · have hindex : [',', 'Y'].all Assembly.isInk = true := by decide
      exact List.all_eq_true.mp hindex c hc
  | label name => exact Assembly.isInk_of_mem_symbol hnamed c hc

theorem firstForm?_hex {w : Nat} {a : Int} {o : Assembly.Operand}
    (h : Assembly.firstForm? ('$' :: (hex w a).toList) Assembly.forms = .ok (some o)) :
    ∃ n : Nat, a = n ∧ (n ≤ 0xFFFF ∧ o = ⟨.fixed .absolute, .number n⟩ ∨
      w ≤ 2 ∧ n ≤ 0xFF ∧ o = ⟨.direct, .number n⟩) := by
  have hcomma : ',' ∉ '$' :: (hex w a).toList := by simp [Assembly.comma_not_mem_hex]
  rcases Assembly.firstForm?_plain hcomma (by simp) h with ⟨-, htext⟩ | ⟨body, t, htext, -⟩ |
    ⟨t, ht, rfl⟩ | ⟨t, ht, rfl⟩
  · simp at htext
  · simp at htext
  · obtain ⟨n, rfl, hn, rfl⟩ := Assembly.wordTerm?_hex ht
    exact ⟨n, rfl, .inl ⟨hn, rfl⟩⟩
  · obtain ⟨n, rfl, hw, hn, rfl⟩ := Assembly.byteTerm?_hex ht
    exact ⟨n, rfl, .inr ⟨hw, hn, rfl⟩⟩

theorem immediate_reads {v : Int} {o : Assembly.Operand}
    (h : Assembly.firstForm? ('#' :: '$' :: (hex 2 v).toList) Assembly.forms = .ok (some o)) :
    (immediate v).Reads o := by
  have hcomma : ',' ∉ '#' :: '$' :: (hex 2 v).toList := by simp [Assembly.comma_not_mem_hex]
  have hliteral : Assembly.Literal.read? ('#' :: '$' :: (hex 2 v).toList) = Option.none := by
    have hsharp : isDigit '#' = false := by decide
    simp [Assembly.Literal.read?, Assembly.plainLiteral?, Assembly.isSymbol, Assembly.isSymbolStart,
      hsharp]
  rcases Assembly.firstForm?_plain hcomma (by simp) h with ⟨-, htext⟩ | ⟨body, t, htext, ht, rfl⟩ |
    ⟨t, ht, -⟩ | ⟨t, ht, -⟩
  · simp at htext
  · obtain rfl : '$' :: (hex 2 v).toList = body := (List.cons.inj htext).2
    have hblank : ∀ c ∈ '$' :: (hex 2 v).toList, isBlank c = false :=
      List.forall_mem_cons.mpr
        ⟨rfl, fun c hc => Assembly.isBlank_of_isInk (Assembly.isInk_of_mem_hex hc)⟩
    rw [Assembly.trim_of_no_blank (by simp) hblank] at ht
    obtain ⟨n, rfl, -, hn, rfl⟩ := Assembly.byteTerm?_hex ht
    exact .immediate hn
  · simp [Assembly.wordTerm?, hliteral] at ht
  · simp [Assembly.byteTerm?, hliteral] at ht

theorem label_reads {name : String} (hname : Assembly.isSymbol name.toList = true)
    {o : Assembly.Operand}
    (h : Assembly.firstForm? name.toList Assembly.forms = .ok (some o)) : (label name).Reads o := by
  have hliteral := Assembly.read?_symbol hname
  have hpart {c : Char} (hc : Assembly.isSymbolPart c = false) : c ∉ name.toList := by
    intro hmem
    rw [Assembly.isSymbolPart_of_mem hname hmem] at hc
    simp at hc
  have hparen : name.toList.head? ≠ some '(' := by
    intro hhead
    exact hpart rfl (List.mem_of_mem_head? hhead)
  rcases Assembly.firstForm?_plain (hpart rfl) hparen h with ⟨rfl, -⟩ | ⟨body, t, htext, -⟩ |
    ⟨t, ht, -⟩ | ⟨t, ht, rfl⟩
  · exact .accumulator
  · have hsharp : '#' ∈ name.toList := by
      rw [htext]
      exact List.mem_cons_self
    exact absurd hsharp (hpart rfl)
  · simp [Assembly.wordTerm?, hliteral, Assembly.Literal.word?] at ht
  · simp only [Assembly.byteTerm?, hliteral, Option.bind_some, Assembly.Literal.byte?,
      String.ofList_toList, Option.some.injEq] at ht
    exact ht ▸ .label

theorem reads_of_firstForm? {operand : CodeOperand} (hnamed : operand.named = true)
    (hne : operand ≠ none) {o : Assembly.Operand}
    (h : Assembly.firstForm? operand.text.toList Assembly.forms = .ok (some o)) :
    operand.Reads o := by
  cases operand with
  | none => exact absurd rfl hne
  | immediate v =>
    rw [immediate_toList] at h
    exact immediate_reads h
  | zeroPage a =>
    rw [zeroPage_toList] at h
    obtain ⟨n, rfl, ⟨hn, rfl⟩ | ⟨-, hn, rfl⟩⟩ := firstForm?_hex h
    · exact .wide hn
    · exact .byte hn
  | absolute a =>
    rw [absolute_toList] at h
    obtain ⟨n, rfl, ⟨hn, rfl⟩ | ⟨hw, -⟩⟩ := firstForm?_hex h
    · exact .absolute hn
    · omega
  | absoluteY a =>
    rw [absoluteY_toList] at h
    rcases Assembly.firstForm?_indexed (fun c hc => Assembly.isInk_of_mem_hex hc) h with
      ⟨t, ht, rfl⟩ | ⟨t, ht, -⟩
    · obtain ⟨n, rfl, hn, rfl⟩ := Assembly.wordTerm?_hex ht
      exact .absoluteY hn
    · obtain ⟨n, -, hw, -⟩ := Assembly.byteTerm?_hex ht
      omega
  | label name => exact label_reads hnamed h

theorem text_ne {operand : CodeOperand} (hnamed : operand.named = true) (hne : operand ≠ none) :
    operand.text.toList ≠ [] := by
  cases operand with
  | none => exact absurd rfl hne
  | label name =>
    intro hnil
    have hsymbol : Assembly.isSymbol name.toList = true := hnamed
    rw [show name.toList = [] from hnil] at hsymbol
    exact absurd hsymbol (by decide)
  | immediate v => simp [immediate_toList]
  | zeroPage a => simp [zeroPage_toList]
  | absolute a => simp [absolute_toList]
  | absoluteY a => simp [absoluteY_toList]

end CodeOperand

namespace CodeLine

theorem plain_toList (m : Mnemonic) :
    (plain m).text.toList = List.replicate 8 ' ' ++ (m.name.toList ++ []) := by
  simp [plain, text, instructionText, CodeOperand.text]

theorem instruction_toList (m : Mnemonic) {operand : CodeOperand}
    (hne : operand.text.toList ≠ []) :
    (instruction m operand).text.toList =
      List.replicate 8 ' ' ++
        (m.name.toList ++ (List.replicate 5 ' ' ++ operand.text.toList)) := by
  have htext : operand.text ≠ "" := by
    intro hnil
    exact hne (by rw [hnil]; rfl)
  have hlength : m.name.length = 3 := (Assembly.mnemonic_letters m).1
  simp [text, instructionText, htext, padRight, hlength]

theorem text_unbroken {l : CodeLine} (hnamed : l.named = true) :
    ∀ c ∈ l.text.toList, isBreak c = false := by
  intro c hc
  have hspace {k : Nat} (hc : c ∈ List.replicate k ' ') : isBreak c = false := by
    rw [List.eq_of_mem_replicate hc]
    rfl
  have hmnemonic {m : Mnemonic} (hc : c ∈ m.name.toList) : isBreak c = false :=
    Assembly.isBreak_of_isInk (Assembly.isInk_of_mnemonic hc)
  cases l with
  | label name =>
    have hline : (label name).text.toList = name.toList ++ [':'] := by simp [text]
    rw [hline, List.mem_append] at hc
    rcases hc with hc | hc
    · exact Assembly.isBreak_of_isInk (Assembly.isInk_of_mem_symbol hnamed c hc)
    · rw [List.mem_singleton.mp hc]
      rfl
  | instruction m operand =>
    by_cases hnone : operand = .none
    · subst hnone
      have hline := plain_toList m
      rw [plain] at hline
      rw [hline, List.append_nil, List.mem_append] at hc
      exact hc.elim hspace hmnemonic
    · rw [instruction_toList m (CodeOperand.text_ne hnamed hnone), List.mem_append, List.mem_append,
        List.mem_append] at hc
      rcases hc with hc | hc | hc | hc
      · exact hspace hc
      · exact hmnemonic hc
      · exact hspace hc
      · exact Assembly.isBreak_of_isInk (CodeOperand.text_ink hnamed c hc)
  | written m operand => simp [named] at hnamed
  | empty => simp [text] at hc

theorem reads_of_readContents {l : CodeLine} (hnamed : l.named = true)
    {cs : List Assembly.Content} (h : Assembly.readContents l.text.toList = .ok cs) :
    l.Reads cs := by
  cases l with
  | label name =>
    have hline : (label name).text.toList = name.toList ++ [':'] := by simp [text]
    rw [hline, Assembly.readContents_label hnamed, String.ofList_toList] at h
    obtain rfl := Except.ok.inj h
    exact .label
  | instruction m operand =>
    by_cases hnone : operand = .none
    · subst hnone
      have hline := plain_toList m
      rw [plain] at hline
      rw [hline, Assembly.readContents_mnemonic m (by simp) (by simp) (by simp [trimLeft])
        (by simp)] at h
      obtain rfl := Except.ok.inj h
      exact .instruction .none
    · have hne := CodeOperand.text_ne hnamed hnone
      have hink := CodeOperand.text_ink hnamed
      rw [instruction_toList m hne] at h
      obtain ⟨o, ho, rfl⟩ := (Assembly.readContents_instruction m hne hink).mp h
      exact .instruction (CodeOperand.reads_of_firstForm? hnamed hnone ho)
  | written m operand => simp [named] at hnamed
  | empty =>
    obtain rfl := Except.ok.inj h
    exact .empty

end CodeLine

def Rows (code : Code) (rows : List (List Assembly.Statement)) : Prop :=
  List.Forall₂ (fun l row => l.Reads (row.map Assembly.Statement.content)) code rows

theorem forall₂_getElem? {R : α → β → Prop} {as : List α} {bs : List β} (h : List.Forall₂ R as bs)
    {i : Nat} {a : α} (ha : as[i]? = some a) : ∃ b, bs[i]? = some b ∧ R a b := by
  induction h generalizing i with
  | nil => simp at ha
  | @cons a' b as bs hab _ ih =>
    cases i with
    | zero =>
      obtain rfl : a' = a := by simpa using ha
      exact ⟨b, rfl, hab⟩
    | succ i => exact ih (by simpa using ha)

theorem rows_of_readLinesFrom {code : Code} (hnamed : ∀ l ∈ code, l.named = true) {file : String}
    {number : Nat} {ss : List Assembly.Statement}
    (h : Assembly.readLinesFrom file number (code.map CodeLine.text) = .ok ss) :
    ∃ rows, Rows code rows ∧ ss = rows.flatten := by
  induction code generalizing number ss with
  | nil =>
    obtain rfl := Except.ok.inj h
    exact ⟨[], .nil, rfl⟩
  | cons l code ih =>
    obtain ⟨row, hrow, h⟩ := bind_eq_ok.mp h
    obtain ⟨others, hothers, h⟩ := bind_eq_ok.mp h
    obtain rfl := Except.ok.inj h
    obtain ⟨rows, hrows, rfl⟩ := ih (fun l' hl' => hnamed l' (List.mem_cons_of_mem l hl')) hothers
    refine ⟨row :: rows, .cons ?_ hrows, rfl⟩
    unfold Assembly.readLine at hrow
    split at hrow
    · rename_i contents hcontents
      obtain rfl := Except.ok.inj hrow
      have hreads := CodeLine.reads_of_readContents (hnamed l List.mem_cons_self) hcontents
      simpa [Function.comp_def] using hreads
    · simp at hrow

theorem lines_codeText {lines : List (CodeLine × Source.Origin)}
    (hnamed : ∀ l ∈ lines.map Prod.fst, l.named = true) :
    Text.lines (codeText lines).text = (lines.map Prod.fst).map CodeLine.text := by
  have hunbroken : ∀ t ∈ (lines.map Prod.fst).map CodeLine.text, ∀ c ∈ t.toList,
      isBreak c = false := by
    intro t ht
    obtain ⟨l, hl, rfl⟩ := List.mem_map.mp ht
    exact CodeLine.text_unbroken (hnamed l hl)
  rw [← lines_join hunbroken]
  simp [codeText, Source.Traced.ofLines, Function.comp_def]

/-- Generated code that the assembler reads, line by line. -/
theorem rows_of_readSource {lines : List (CodeLine × Source.Origin)}
    (hnamed : ∀ l ∈ lines.map Prod.fst, l.named = true) {file : String}
    {ss : List Assembly.Statement}
    (h : Assembly.readSource file (codeText lines).text = .ok ss) :
    ∃ rows, Rows (lines.map Prod.fst) rows ∧ ss = rows.flatten := by
  unfold Assembly.readSource at h
  rw [lines_codeText hnamed] at h
  exact rows_of_readLinesFrom hnamed h

end Toolchain6502.C
