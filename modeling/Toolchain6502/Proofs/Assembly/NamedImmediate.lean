import Toolchain6502.Proofs.Assembly.LiteralOperands
import Toolchain6502.Proofs.Assembly.WrittenConstant

namespace Toolchain6502.Assembly

open Text Cpu

def immediateLine (m : Mnemonic) (operand : List Char) : List Char :=
  m.name.toList ++ ' ' :: '#' :: operand

def unitOf (ls : List (List Char)) : String := String.ofList (ls.flatMap (· ++ ['\n']))

theorem lines_unitOf {ls : List (List Char)} (h : ∀ l ∈ ls, ∀ c ∈ l, isBreak c = false) :
    lines (unitOf ls) = ls.map String.ofList := by
  have hsplit : splitLines (ls.flatMap (· ++ ['\n'])) = ls := by
    induction ls with
    | nil => rfl
    | cons l ls ih =>
      obtain ⟨hl, hls⟩ := List.forall_mem_cons.mp h
      rw [List.flatMap_cons, List.append_assoc, List.singleton_append, splitLines_append_break hl,
        ih hls]
  rw [lines, unitOf, String.toList_ofList, hsplit]

theorem exists_splitLines_eq {line : List Char} (hline : ∀ c ∈ line, isBreak c = false) {d : Char}
    (hd : isBreak d = true) (rest : List Char) :
    ∃ ls, splitLines (line ++ d :: rest) = line :: ls := by
  induction line with
  | nil =>
    rw [List.nil_append]
    unfold splitLines
    split
    · rename_i heq
      simp at heq
    · exact ⟨_, rfl⟩
    · rename_i heq
      obtain ⟨rfl, -⟩ := List.cons.inj heq
      exact ⟨_, if_pos hd⟩
  | cons c line ih =>
    obtain ⟨hc, hline⟩ := List.forall_mem_cons.mp hline
    obtain ⟨ls, hls⟩ := ih hline
    have hne : c ≠ '\r' := by
      rintro rfl
      exact absurd hc (by decide)
    refine ⟨ls, ?_⟩
    rw [List.cons_append, splitLines]
    · simp [hc, hls]
    · intro cs hcr _
      exact hne hcr

theorem firstForm?_eq_none {text : List Char} {fs : List Form}
    (h : ∀ f ∈ fs, f.read? text = .ok none) : firstForm? text fs = .ok none := by
  induction fs with
  | nil => rfl
  | cons f fs ih =>
    obtain ⟨hf, hfs⟩ := List.forall_mem_cons.mp h
    rw [firstForm?_cons_of_none hf, ih hfs]

theorem Form.read?_eq_none {f : Form} {text : List Char}
    (h : ∀ body, f.body? text = some body → f.term? body = .ok none) : f.read? text = .ok none := by
  unfold Form.read?
  split
  · rfl
  · rename_i body hbody
    rw [h body hbody]
    rfl

theorem read?_sharp (rest : List Char) : Literal.read? ('#' :: rest) = none := by
  have hplain : Literal.read? ('#' :: rest) = plainLiteral? ('#' :: rest) := rfl
  have hother : isSymbolStart '#' = false ∧ '#'.isDigit = false ∧ isDigit '#' = false := by decide
  simp [hplain, plainLiteral?, isSymbol, hother]

theorem byteForm_eq_none {mode : Mode} {body? : List Char → Option (List Char)} {text : List Char}
    (h : ∀ body, body? text = some body → Literal.read? body = none) :
    (byteForm mode body?).read? text = .ok none := by
  refine Form.read?_eq_none fun body hbody => ?_
  obtain ⟨own, hown, hline⟩ := Option.bind_eq_some_iff.mp hbody
  obtain rfl := oneLine?_eq_some hline
  simp [byteForm, byteTerm?, h body hown]

theorem wordForm_eq_none {mode : Mode} {loose : Bool} {body? : List Char → Option (List Char)}
    {text : List Char} (h : ∀ body, body? text = some body → Literal.read? body = none) :
    (wordForm mode loose body?).read? text = .ok none := by
  refine Form.read?_eq_none fun body hbody => ?_
  obtain ⟨own, hown, hline⟩ := Option.bind_eq_some_iff.mp hbody
  obtain rfl := oneLine?_eq_some hline
  simp [wordForm, wordTerm?, h body hown]

/-- An index register leaves a sharp sign where it is, and that opens no number. -/
theorem beforeIndex?_sharp {rest : List Char} (register : Char) :
    ∀ body, beforeIndex? register ('#' :: rest) = some body →
      Literal.read? body = none ∧ insideParens? body = none := by
  intro body h
  obtain ⟨front, back, c, htext, -⟩ := beforeIndex?_eq_some h
  cases body with
  | nil => exact ⟨rfl, rfl⟩
  | cons d body =>
    obtain rfl : '#' = d := by
      simp only [List.cons_append] at htext
      exact (List.cons.inj htext).1
    exact ⟨read?_sharp body, rfl⟩

/-- Only an immediate starts with a sharp sign. -/
theorem firstForm?_sharp (rest : List Char) : firstForm? ('#' :: rest) forms =
    .ok ((immediateTerm? (trim rest)).map fun t => ⟨.fixed .immediate, t⟩) := by
  have himmediate : immediateForm.read? ('#' :: rest) =
      .ok ((immediateTerm? (trim rest)).map fun t => ⟨.fixed .immediate, t⟩) := rfl
  unfold forms
  rw [firstForm?_cons_of_none (by rfl)]
  cases hterm : immediateTerm? (trim rest) with
  | some t =>
    rw [hterm] at himmediate
    exact firstForm?_cons_of_some himmediate
  | none =>
    rw [hterm] at himmediate
    rw [firstForm?_cons_of_none himmediate]
    apply firstForm?_eq_none
    simp only [List.forall_mem_cons, List.not_mem_nil, false_imp_iff, implies_true, and_true]
    have hindexed (register : Char) (body : List Char)
        (h : beforeIndex? register ('#' :: rest) = some body) : Literal.read? body = none :=
      (beforeIndex?_sharp register body h).1
    refine ⟨byteForm_eq_none fun body h => ?_, byteForm_eq_none (by simp [insideParens?]),
      wordForm_eq_none (by simp [insideParens?]), wordForm_eq_none (hindexed _),
      wordForm_eq_none (hindexed _), ?_, byteForm_eq_none (hindexed _),
      byteForm_eq_none (hindexed _), ?_⟩
    · obtain ⟨inner, hinner, h⟩ := Option.bind_eq_some_iff.mp h
      simp [(beforeIndex?_sharp _ _ hinner).2] at h
    · simp [Form.read?, absoluteForm, wordTerm?, read?_sharp]
    · simp [Form.read?, directForm, byteTerm?, read?_sharp]

theorem stripCommentFrom_quote {q : Char} {text : List Char} (h : q ∉ text) (rest : List Char) :
    stripCommentFrom (some q) (text ++ rest) = text ++ stripCommentFrom (some q) rest := by
  induction text with
  | nil => rfl
  | cons c text ih =>
    rw [List.mem_cons, not_or] at h
    simp [stripCommentFrom, Ne.symm h.1, ih h.2]

theorem stripComment_quote {text : List Char} (h : '\'' ∉ text) (rest : List Char) :
    stripComment ('\'' :: (text ++ rest)) =
      '\'' :: (text ++ stripCommentFrom (some '\'') rest) := by
  rw [stripComment, stripCommentFrom, ← stripCommentFrom_quote h]
  rfl

theorem stripComment_of_parts {text : List Char} (h : ∀ c ∈ text, isValuePart c = true) :
    stripComment text = text := by
  refine stripComment_eq fun c hc => ?_
  have hpart := h c hc
  refine ⟨?_, ?_, ?_⟩ <;> rintro rfl <;> exact absurd hpart (by decide)

theorem Literal.Written.stripComment {l : Literal} {text : List Char} (h : l.Written text) :
    stripComment text = text := by
  obtain ⟨-, hparts | ⟨inner, hinner, rfl⟩⟩ := h.parts
  · exact stripComment_of_parts hparts
  · exact stripComment_quote hinner ['\'']

theorem exists_mnemonic_letters (m : Mnemonic) :
    ∃ c letters, m.name.toList = c :: letters ∧ isInk c = true ∧ c ≠ '.' := by
  cases hname : m.name.toList with
  | nil => simpa [hname] using (mnemonic_letters m).1
  | cons c letters =>
    have halpha := List.all_eq_true.mp (mnemonic_letters m).2.1 c (by simp [hname])
    refine ⟨c, letters, rfl, isInk_of_mnemonic (m := m) (by simp [hname]), ?_⟩
    rintro rfl
    exact absurd halpha (by decide)

theorem trim_stripComment_immediateLine (m : Mnemonic) {operand : List Char}
    (hstrip : stripComment operand = operand) :
    trim (stripComment (immediateLine m operand)) =
      m.name.toList ++ ' ' :: '#' :: trimRight operand := by
  have hline : immediateLine m operand = (m.name.toList ++ [' ', '#']) ++ operand := by
    simp [immediateLine]
  have hunmarked : Unmarked (m.name.toList ++ [' ', '#']) := by
    refine unmarked_of_ink fun c hc => ?_
    rcases List.mem_append.mp hc with hc | hc
    · exact .inl (isInk_of_mnemonic hc)
    · simp only [List.mem_cons, List.not_mem_nil, or_false] at hc
      rcases hc with rfl | rfl
      · exact .inr rfl
      · exact .inl rfl
  obtain ⟨c, letters, hletters, hc, -⟩ := exists_mnemonic_letters m
  have hleft : trimLeft (immediateLine m operand) = immediateLine m operand :=
    trimLeft_eq_self (by simp [immediateLine, hletters, isBlank_of_isInk hc])
  have hkept : stripComment (immediateLine m operand) = immediateLine m operand := by
    rw [hline, stripComment_append hunmarked, hstrip]
  rw [hkept, trim, hleft, hline, trimRight_append_left (by simp [isBlank])]
  simp

theorem readOperandAfter_sharp (operand : List Char) :
    readOperandAfter (' ' :: '#' :: trimRight operand) =
      match immediateTerm? (trim operand) with
      | some t => .ok ⟨.fixed .immediate, t⟩
      | none => .error (.fault
          { fault := .invalidOperand (String.ofList ('#' :: trimRight operand)) }) := by
  have htrimmed : Trimmed ('#' :: trimRight operand) := by
    refine ⟨by simp [isBlank], fun d hd => ?_⟩
    by_cases hnil : trimRight operand = []
    · obtain rfl : '#' = d := by simpa [hnil] using hd
      rfl
    · rw [← List.singleton_append, List.getLast?_append_of_ne_nil _ hnil] at hd
      exact isBlank_of_mem_getLast?_trimRight hd
  have htrim : trim (' ' :: '#' :: trimRight operand) = '#' :: trimRight operand := by
    have hspace : ∀ c ∈ [' '], isBlank c = true := by simp [isBlank]
    have hnone : ∀ c ∈ ([] : List Char), isBlank c = true := by simp
    simpa using htrimmed.trim_append (by simp) hspace hnone
  have hread : Operand.read? (' ' :: '#' :: trimRight operand) =
      .ok ((immediateTerm? (trim operand)).map fun t => ⟨.fixed .immediate, t⟩) := by
    rw [Operand.read?, htrim, if_neg (by simp), firstForm?_sharp, trim_trimRight]
  rw [readOperandAfter, if_pos (by rfl), readOperand, hread, htrim]
  cases immediateTerm? (trim operand) <;> rfl

theorem readContents_immediateLine_eq (m : Mnemonic) {operand : List Char}
    (hstrip : stripComment operand = operand) :
    readContents (immediateLine m operand) =
      match immediateTerm? (trim operand) with
      | some t => .ok [.instruction m ⟨.fixed .immediate, t⟩]
      | none => .error (.fault
          { fault := .invalidOperand (String.ofList ('#' :: trimRight operand)) }) := by
  obtain ⟨c, letters, hletters, -, hpoint⟩ := exists_mnemonic_letters m
  have hsplit : splitLabel? (m.name.toList ++ ' ' :: '#' :: trimRight operand) = none :=
    splitLabel?_mnemonic m (by simp) (by simp [trimLeft, isBlank])
  rw [readContents, trim_stripComment_immediateLine m hstrip]
  simp only [hsplit]
  rw [hletters, List.cons_append, readBody_cons hpoint, ← List.cons_append, ← hletters,
    readInstruction_mnemonic m (by simp), readOperandAfter_sharp]
  cases immediateTerm? (trim operand) <;> rfl

theorem readContents_immediateLine (m : Mnemonic) {operand : List Char}
    (hstrip : stripComment operand = operand) {cs : List Content} :
    readContents (immediateLine m operand) = .ok cs ↔
      ∃ t, immediateTerm? (trim operand) = some t ∧
        cs = [.instruction m ⟨.fixed .immediate, t⟩] := by
  rw [readContents_immediateLine_eq m hstrip]
  cases immediateTerm? (trim operand) <;> simp [@eq_comm _ _ cs]

theorem Literal.Written.value?_of_number? {l : Literal} {text : List Char} (h : l.Written text)
    {n : Int} (hn : l.number? = .ok (some n)) : l.value? = some n := by
  have hdecimal {ds : List Char} (hds : ∀ c ∈ ds, c.isDigit = true) {k : Nat}
      (hk : Text.decimal ds = .ok k) : k = positional 10 ds :=
    Option.some.inj ((runValue?_of_decimal hk).symm.trans (runValue?_of_isDigit hds))
  cases h with
  | decimal hne hds =>
    obtain ⟨k, hk, hn⟩ := bind_eq_ok.mp hn
    rw [hdecimal hds hk] at hn
    exact Except.ok.inj hn
  | minus hne hds =>
    obtain ⟨k, hk, hn⟩ := bind_eq_ok.mp hn
    rw [hdecimal hds hk] at hn
    exact Except.ok.inj hn
  | digits hrun => simp [number?] at hn
  | symbol hname => simp [number?] at hn
  | hex _ _ _ | binary _ _ _ | quoted _ _ => exact Except.ok.inj hn

/-- A number that can be a constant is kept there modulo the words. -/
theorem readConstantValue_spelled {text : List Char} {v : Int} (htext : Spelled text v)
    {value : ConstantValue} (h : readConstantValue text = .ok value) :
    -0x80 ≤ v ∧ v ≤ 0xFFFF ∧ value = .number (v % 0x10000).toNat := by
  obtain ⟨l, hread, hvalue⟩ := htext.read?
  have hnumber : number? text = l.number? := by
    rw [number?, htext.solid.trimmed.trim_eq, hread]
  rw [readConstantValue, hnumber] at h
  cases hl : l.number? with
  | error e => simp [hl] at h
  | ok r =>
    cases r with
    | none => simp [hl, constantSymbol, htext.not_symbol, faultAs] at h
    | some n =>
      obtain rfl : n = v :=
        Option.some.inj (((written_of_read? hread).value?_of_number? hl).symm.trans hvalue)
      simp only [hl, constantNumber] at h
      split_ifs at h with hrange
      · exact ⟨hrange.1, hrange.2, (Except.ok.inj h).symm⟩
      · simp [faultAs] at h

theorem immediateTerm?_spelled {text : List Char} {v : Int} (htext : Spelled text v) {t : Term}
    (h : immediateTerm? text = some t) : t.number? = some v ∧ v ≤ 0xFF := by
  obtain ⟨-, ⟨w, hw, hnumber, htakes⟩ | ⟨hnone, -⟩⟩ := holds_of_immediateTerm? h
  · obtain rfl := htext.unique hw
    rcases htakes with ⟨-, -, hle⟩ | ⟨hwidth, -⟩
    · exact ⟨hnumber, hle⟩
    · simp [Shape.width, Mode.operandSize] at hwidth
  · exact absurd htext (hnone v)

theorem immediateTerm?_symbol {name : List Char} (hname : isSymbol name = true) :
    immediateTerm? name = some (.symbol (String.ofList name)) := by
  have hbyte : byteTerm? name = some (.symbol (String.ofList name)) := by
    simp [byteTerm?, read?_symbol hname, Literal.byte?]
  have hsign {c : Char} (hc : isSymbolPart c = false) : c ∉ name := by
    intro hmem
    simp [isSymbolPart_of_mem hname hmem] at hc
  unfold immediateTerm?
  split
  · exact absurd List.mem_cons_self (hsign rfl)
  · exact absurd List.mem_cons_self (hsign rfl)
  · exact hbyte

theorem isValuePart_of_isConstantLetter {c : Char} (h : isConstantLetter c = true) :
    isValuePart c = false := by
  have hof {n : Nat} (hn : c.toNat = n) : c = Char.ofNat n := by rw [← hn, Char.ofNat_toNat]
  simp only [isConstantLetter, Bool.or_eq_true, beq_iff_eq] at h
  rcases h with ((h | h) | h) | h <;> rw [hof h] <;> decide +kernel

theorem exists_isConstantLetter {name : List Char} (hname : isConstantName name = true)
    (h : isSymbol name = false) : ∃ c ∈ name, isConstantLetter c = true := by
  cases name with
  | nil => simp [isConstantName] at hname
  | cons c cs =>
    simp only [isConstantName, Bool.and_eq_true, Bool.or_eq_true, List.all_eq_true] at hname
    by_contra hnone
    have hother : ∀ d ∈ c :: cs, ¬isConstantLetter d = true := fun d hd hletter =>
      hnone ⟨d, hd, hletter⟩
    have hstart := hname.1.resolve_right (hother c List.mem_cons_self)
    have hparts : ∀ d ∈ cs, isSymbolPart d = true := fun d hd =>
      (hname.2 d hd).resolve_right (hother d (List.mem_cons_of_mem c hd))
    simp [isSymbol, hstart, List.all_eq_true.mpr hparts] at h

/-- A name that is no symbol has a letter that no value has. -/
theorem immediateTerm?_of_not_symbol {name : List Char} (hname : isConstantName name = true)
    (h : isSymbol name = false) :
    immediateTerm? name = none ∧ immediateTerm? ('<' :: name) = none := by
  refine ⟨?_, if_neg (by simp [h])⟩
  have hbyte : byteTerm? name = none := by
    cases hread : Literal.read? name with
    | none => simp [byteTerm?, hread]
    | some l =>
      -- The letter is in no literal without quotes, and a quote is in no name.
      obtain ⟨c, hc, hletter⟩ := exists_isConstantLetter hname h
      obtain ⟨-, hparts | ⟨inner, -, rfl⟩⟩ := (written_of_read? hread).parts
      · exact absurd (hparts c hc) (by simp [isValuePart_of_isConstantLetter hletter])
      · exact absurd rfl (plain_of_isConstantName hname List.mem_cons_self).2.2.2.1
  have hsign {c : Char} (hc : (isSymbolStart c || isConstantLetter c) = false) (rest : List Char) :
      name ≠ c :: rest := by
    rintro rfl
    simp [isConstantName, hc] at hname
  unfold immediateTerm?
  split
  · exact absurd rfl (hsign (by decide) _)
  · exact absurd rfl (hsign (by decide) _)
  · exact hbyte

section

variable {m : Mnemonic} {name text : List Char} {v : Int} {file : String}

theorem isBlank_of_isBreak {c : Char} (h : isBreak c = true) : isBlank c = true := by
  simp only [isBreak, Bool.or_eq_true, Bool.and_eq_true, decide_eq_true_eq, beq_iff_eq] at h
  simp only [isBlank, Bool.or_eq_true, Bool.and_eq_true, decide_eq_true_eq, beq_iff_eq]
  omega

theorem isBreak_of_isValuePart {c : Char} (h : isValuePart c = true) : isBreak c = false := by
  rw [Bool.eq_false_iff]
  intro hbreak
  simpa [isBlank_of_isValuePart h] using isBlank_of_isBreak hbreak

/-- A quotation that is cut by a break is no value. -/
theorem immediateTerm?_open {inner : List Char} (h : '\'' ∉ inner) :
    immediateTerm? (trim ('\'' :: inner)) = none := by
  have htrim : trim ('\'' :: inner) = '\'' :: trimRight inner := by
    rw [trim, trimLeft_eq_self (by simp [isBlank]), ← List.singleton_append,
      trimRight_append_left (by simp [isBlank]), List.singleton_append]
  rw [htrim]
  change (quotedLiteral? (trimRight inner)).bind Literal.byte? = none
  cases hquoted : quotedLiteral? (trimRight inner) with
  | none => rfl
  | some l =>
    obtain ⟨c, rest, -, -, hinner, -⟩ := quotedLiteral?_eq_some_iff.mp hquoted
    obtain ⟨blanks, -, hblanks⟩ := exists_trimRight_eq inner
    rw [hblanks, hinner] at h
    simp at h

theorem immediateLine_clean {operand : List Char} (h : ∀ c ∈ operand, isBreak c = false) :
    ∀ c ∈ immediateLine m operand, isBreak c = false := by
  intro c hc
  simp only [immediateLine, List.mem_append, List.mem_cons] at hc
  rcases hc with hc | rfl | rfl | hc
  · exact isBreak_of_isInk (isInk_of_mnemonic hc)
  · rfl
  · rfl
  · exact h c hc

/-- A literal in a line that is read holds no break. -/
theorem isBreak_of_immediateLine (htext : Spelled text v) {ss : List Statement}
    (h : readSource file (unitOf [immediateLine m text]) = .ok ss) :
    ∀ c ∈ text, isBreak c = false := by
  obtain ⟨l, hread, -⟩ := htext.read?
  obtain ⟨-, hparts | ⟨inner, hinner, rfl⟩⟩ := (written_of_read? hread).parts
  · exact fun c hc => isBreak_of_isValuePart (hparts c hc)
  · cases hfind : inner.find? isBreak with
    | none =>
      intro c hc
      rcases List.mem_cons.mp hc with rfl | hc
      · rfl
      · rcases List.mem_append.mp hc with hc | hc
        · simpa using List.find?_eq_none.mp hfind c hc
        · obtain rfl := List.mem_singleton.mp hc
          rfl
    | some d =>
      -- the first line ends at the first break, and there the quotation is still open
      obtain ⟨hd, front, back, rfl, hfront⟩ := List.find?_eq_some_iff_append.mp hfind
      have hopen : '\'' ∉ front := fun hmem => hinner (by simp [hmem])
      have hclean : ∀ c ∈ immediateLine m ('\'' :: front), isBreak c = false :=
        immediateLine_clean (List.forall_mem_cons.mpr ⟨rfl, fun c hc => by simpa using hfront c hc⟩)
      obtain ⟨ls, hls⟩ := exists_splitLines_eq hclean hd (back ++ ['\'', '\n'])
      have hlines : lines (unitOf [immediateLine m ('\'' :: (front ++ d :: back ++ ['\'']))]) =
          String.ofList (immediateLine m ('\'' :: front)) :: ls.map String.ofList := by
        rw [← List.map_cons, ← hls]
        simp [lines, unitOf, immediateLine]
      rw [readSource, hlines] at h
      obtain ⟨own, hown, -⟩ := bind_eq_ok.mp h
      obtain ⟨cs, hcs⟩ := exists_readLine_eq_ok.mp ⟨own, hown⟩
      rw [String.toList_ofList] at hcs
      have hstrip : stripComment ('\'' :: front) = '\'' :: front := by
        simpa [stripCommentFrom] using stripComment_quote hopen []
      obtain ⟨t, ht, -⟩ := (readContents_immediateLine m hstrip).mp hcs
      simp [immediateTerm?_open hopen] at ht

theorem constantLine_clean (hname : isConstantName name = true) (h : ∀ c ∈ text, isBreak c = false) :
    ∀ c ∈ constantLine name text, isBreak c = false := by
  have hword : ∀ c ∈ constantWord, isBreak c = false := by
    simpa using List.all_eq_true.mp (by decide : constantWord.all (fun c => !isBreak c) = true)
  intro c hc
  simp only [constantLine, List.mem_append, List.mem_cons] at hc
  rcases hc with hc | rfl | hc | rfl | hc
  · exact hword c hc
  · rfl
  · exact (plain_of_isConstantName hname hc).2.1
  · rfl
  · exact h c hc

theorem readContents_constantLine_spelled (hname : isConstantName name = true)
    (htext : Spelled text v) (hbreak : ∀ c ∈ text, isBreak c = false) :
    readContents (constantLine name text) = do
      let value ← readConstantValue text
      return [.constant (String.ofList name) value] := by
  have hsolid := htext.solid
  obtain ⟨l, hread, -⟩ := htext.read?
  have hline (x : List Char) :
      constantLine name x = (constantWord ++ ' ' :: (name ++ [' '])) ++ x := by
    simp [constantLine]
  have hunmarked : Unmarked (constantWord ++ ' ' :: (name ++ [' '])) := by
    have hword : Unmarked constantWord :=
      unmarked_of_ink fun c hc => .inl (List.all_eq_true.mp (by decide) c hc)
    intro c hc
    simp only [List.mem_append, List.mem_cons, List.not_mem_nil, or_false] at hc
    rcases hc with hc | rfl | hc | rfl
    · exact hword c hc
    · decide
    · exact (plain_of_isConstantName hname hc).2.2
    · decide
  have htrimmed : Trimmed (constantLine name text) := by
    refine ⟨by simp [constantLine, constantWord, isBlank], ?_⟩
    rw [hline, List.getLast?_append_of_ne_nil _ hsolid.ne]
    exact hsolid.trimmed.last
  have hstrip : trim (stripComment (constantLine name text)) =
      constantWord ++ ' ' :: (name ++ ' ' :: text) := by
    rw [hline, stripComment_append hunmarked, (written_of_read? hread).stripComment, ← hline,
      htrimmed.trim_eq, constantLine]
  have hnewline : '\n' ∉ text := fun h => absurd (hbreak _ h) (by decide)
  rw [readContents_of_constantWord hstrip, readConstant]
  simp only [splitConstant?_of_trimmed hname hsolid.ne hsolid.trimmed hnewline]
  cases readConstantValue text <;> rfl

theorem readSource_line {line : List Char} (hclean : ∀ c ∈ line, isBreak c = false)
    {ss : List Statement} (h : readSource file (unitOf [line]) = .ok ss) :
    ∃ cs, readContents line = .ok cs ∧
      ss = cs.map fun c => ⟨c, { file, line := 1 }, String.ofList line⟩ := by
  rw [readSource, lines_unitOf (by simpa using hclean)] at h
  obtain ⟨own, hown, h⟩ := bind_eq_ok.mp h
  simp only [readLine, String.toList_ofList] at hown
  split at hown
  · rename_i cs hcs
    refine ⟨cs, hcs, ?_⟩
    obtain rfl := Except.ok.inj hown
    simpa [readLinesFrom, @eq_comm _ _ ss] using h
  · simp at hown

theorem readSource_two_lines (file : String) {first second : List Char} {c d : Content}
    (hfirst : readContents first = .ok [c]) (hsecond : readContents second = .ok [d])
    (hclean : ∀ l ∈ [first, second], ∀ c ∈ l, isBreak c = false) :
    readSource file (unitOf [first, second]) =
      .ok [⟨c, { file, line := 1 }, String.ofList first⟩,
        ⟨d, { file, line := 2 }, String.ofList second⟩] := by
  rw [readSource, lines_unitOf hclean]
  simp [readLinesFrom, readLine, hfirst, hsecond]

theorem readSource_second_refused (file : String) {first second : List Char} {cs : List Content}
    {e : ReadFailure} (hfirst : readContents first = .ok cs) (hsecond : readContents second = .error e)
    (hclean : ∀ l ∈ [first, second], ∀ c ∈ l, isBreak c = false) :
    readSource file (unitOf [first, second]) =
      .error (e.place { file, line := 2 } (String.ofList second)) := by
  rw [readSource, lines_unitOf hclean]
  simp [readLinesFrom, readLine, hfirst, hsecond]

end

section

variable {origin : Nat} {t : Symbols} {m : Mnemonic} {term : Term} {i : Statement}
  (hi : i.content = .instruction m ⟨.fixed .immediate, term⟩)

include hi

/-- An immediate number alone is its opcode and its low byte. -/
theorem code_of_immediate {v : Int} (hnumber : term.number? = some v) (hformed : i.content.Formed)
    {image : Image} (h : assemble origin t [i] = .ok image) :
    ∃ opcode, m.opcode? .immediate = some opcode ∧ origin + opcode.size ≤ addressLimit ∧
      image.code = [opcode.code, byteOf v] := by
  obtain ⟨hfit, hencodes, rfl⟩ := (assemble_eq_ok (by simpa using hformed)).mp h
  obtain ⟨opcode, hopcode, hsize, hbytes, -⟩ :=
    (hencodes (origin, i) (by simp)).number hi hnumber
  have hlimit : origin + i.size ≤ addressLimit := by
    have hown := hfit.1
    simp only [Statement.Fits, hi] at hown
    exact hown.2
  refine ⟨opcode, hopcode, hsize ▸ hlimit, ?_⟩
  rw [code_of_rows, placed_cons, placed_nil, List.flatMap_singleton, hbytes]
  rfl

/-- A constant and an immediate that names it: the byte is all that is left to find. -/
theorem assemble_named {name : String} {n : Nat} {c : Statement}
    (hc : c.content = .constant name (.number n)) (hnew : t.find? name = none) {opcode : Opcode}
    (hopcode : m.opcode? .immediate = some opcode) (hlimit : origin + opcode.size ≤ addressLimit) :
    (assemble origin t [c, i]).map Image.code =
      (immediateByte (t ++ [⟨name, n, .constant c.location⟩]) i term).map
        fun b => [opcode.code, b] := by
  have hmode : opcode.mode = .immediate := encoding?_mode (o := ⟨.fixed .immediate, term⟩) hopcode
  have hencode : encode i m ⟨.fixed .immediate, term⟩ = .ok opcode := encode_eq_ok.mpr hopcode
  have hlay : layOut t origin [c, i] = .ok (t ++ [⟨name, n, .constant c.location⟩]) := by
    simp [layOut, layStatement, hc, hi, constantValue, define, hnew, hencode, hlimit]
  rw [assemble_eq, walks, hlay, ok_bind]
  simp only [emitRows, hc, hi, emitInstruction, hencode, ok_bind, hmode, operandBytes]
  cases immediateByte (t ++ [⟨name, n, .constant c.location⟩]) i term <;> rfl

end

theorem immediateByte_named {t : Symbols} {name : String} (hnew : t.find? name = none) (n : Nat)
    (d : Definition) (i : Statement) :
    immediateByte (t ++ [⟨name, n, d⟩]) i (.symbol name) =
        (if n ≤ 0xFF then .ok (byteOf n) else .error (i.fail (.immediateRange name n))) ∧
      immediateByte (t ++ [⟨name, n, d⟩]) i (.half .low name) = .ok (byteOf n) := by
  have hlookup : lookup (t ++ [⟨name, n, d⟩]) i name = .ok n :=
    lookup_eq_ok.mpr (value?_append_fresh hnew)
  constructor
  · simp only [immediateByte, hlookup, ok_bind]
    split <;> rfl
  · simp only [immediateByte, hlookup, ok_bind]
    rfl

namespace Session

theorem fst_assembleText {s : Session} {text : String} {ss : List Statement}
    (h : readSource mergedName text = .ok ss) : (s.assembleText text).1 =
      ((Assembly.assemble s.origin s.predefined ss).map Image.code).mapError .assembly := by
  simp only [assembleText_eq, h]
  cases Assembly.assemble s.origin s.predefined ss <;> rfl

theorem exists_of_fst_assembleText {s : Session} {text : String} {code : List UInt8}
    (h : (s.assembleText text).1 = .ok code) : ∃ ss image, readSource mergedName text = .ok ss ∧
      Assembly.assemble s.origin s.predefined ss = .ok image ∧ image.code = code := by
  obtain ⟨ss, image, hread, hassemble, hcode, -⟩ := assembleText_eq_ok.mp (Prod.ext h rfl)
  exact ⟨ss, image, hread, hassemble, hcode⟩

section

variable {s : Session} {m : Mnemonic} {name text : List Char} {v : Int}

theorem exists_of_immediate (htext : Spelled text v) {code : List UInt8}
    (h : (s.assembleText (unitOf [immediateLine m text])).1 = .ok code) :
    (∀ c ∈ text, isBreak c = false) ∧ v ≤ 0xFF ∧ ∃ opcode, m.opcode? .immediate = some opcode ∧
      s.origin + opcode.size ≤ addressLimit ∧ code = [opcode.code, byteOf v] := by
  obtain ⟨l, hread, -⟩ := htext.read?
  obtain ⟨ss, image, hss, hassemble, rfl⟩ := exists_of_fst_assembleText h
  have hbreak := isBreak_of_immediateLine htext hss
  obtain ⟨cs, hcs, rfl⟩ := readSource_line (immediateLine_clean hbreak) hss
  obtain ⟨term, hterm, rfl⟩ :=
    (readContents_immediateLine m (written_of_read? hread).stripComment).mp hcs
  rw [htext.solid.trimmed.trim_eq] at hterm
  obtain ⟨hnumber, hbyte⟩ := immediateTerm?_spelled htext hterm
  exact ⟨hbreak, hbyte,
    code_of_immediate rfl hnumber (readSource_formed hss _ List.mem_cons_self) hassemble⟩

theorem exists_of_constant (hname : isConstantName name = true) (htext : Spelled text v)
    (hbreak : ∀ c ∈ text, isBreak c = false) {code : List UInt8}
    (h : (s.assembleText (unitOf [constantLine name text])).1 = .ok code) :
    -0x80 ≤ v ∧ s.predefined.find? (String.ofList name) = none ∧
      readContents (constantLine name text) =
        .ok [.constant (String.ofList name) (.number (v % 0x10000).toNat)] := by
  obtain ⟨ss, image, hss, hassemble, -⟩ := exists_of_fst_assembleText h
  obtain ⟨cs, hcs, rfl⟩ := readSource_line (constantLine_clean hname hbreak) hss
  obtain ⟨value, hvalue, hown⟩ :=
    bind_eq_ok.mp ((readContents_constantLine_spelled hname htext hbreak).symm.trans hcs)
  obtain rfl := Except.ok.inj hown
  obtain ⟨hlow, -, rfl⟩ := readConstantValue_spelled htext hvalue
  obtain ⟨hfit, -⟩ := (assemble_eq_ok (readSource_formed hss)).mp hassemble
  exact ⟨hlow, hfit.1, hcs⟩

end

def firstStatement (name text : List Char) (n : Nat) : Statement :=
  ⟨.constant (String.ofList name) (.number n), { file := mergedName, line := 1 },
    String.ofList (constantLine name text)⟩

def secondStatement (m : Mnemonic) (operand : List Char) (term : Term) : Statement :=
  ⟨.instruction m ⟨.fixed .immediate, term⟩, { file := mergedName, line := 2 },
    String.ofList (immediateLine m operand)⟩

section

variable {s : Session} {m : Mnemonic} {name text : List Char} {n : Nat} {opcode : Opcode}
  (hfirst : readContents (constantLine name text) =
    .ok [.constant (String.ofList name) (.number n)])
  (hclean : ∀ c ∈ constantLine name text, isBreak c = false)
  (hnew : s.predefined.find? (String.ofList name) = none)
  (hopcode : m.opcode? .immediate = some opcode) (hlimit : s.origin + opcode.size ≤ addressLimit)

include hfirst hclean hnew hopcode hlimit

theorem assembleText_named {operand : List Char} {term : Term} (hne : operand ≠ [])
    (hparts : ∀ c ∈ operand, isValuePart c = true) (hterm : immediateTerm? operand = some term) :
    (s.assembleText (unitOf [constantLine name text, immediateLine m operand])).1 =
      ((immediateByte (s.predefined ++ [⟨String.ofList name, n, .constant
        (firstStatement name text n).location⟩]) (secondStatement m operand term) term).map
        fun b => [opcode.code, b]).mapError .assembly := by
  have hsecond : readContents (immediateLine m operand) =
      .ok [.instruction m ⟨.fixed .immediate, term⟩] := by
    refine (readContents_immediateLine m (stripComment_of_parts hparts)).mpr ⟨term, ?_, rfl⟩
    rw [(solid_of_parts hne hparts).trimmed.trim_eq, hterm]
  have hlines : ∀ l ∈ [constantLine name text, immediateLine m operand], ∀ c ∈ l,
      isBreak c = false := by
    simp only [List.forall_mem_cons, List.not_mem_nil, false_imp_iff, implies_true, and_true]
    exact ⟨hclean, immediateLine_clean fun c hc => isBreak_of_isValuePart (hparts c hc)⟩
  have hread := readSource_two_lines mergedName hfirst hsecond hlines
  have hassemble := assemble_named (i := secondStatement m operand term)
    (c := firstStatement name text n) rfl rfl hnew hopcode hlimit
  rw [fst_assembleText hread]
  exact congrArg (Except.mapError Failure.assembly) hassemble

/-- A name alone is refused if its value is no byte, and with the sign of the low byte it never
is. -/
theorem assembleText_symbol (hname : isSymbol name = true) :
    (s.assembleText (unitOf [constantLine name text, immediateLine m name])).1 =
        (if n ≤ 0xFF then .ok [opcode.code, byteOf n]
          else .error (.assembly ((secondStatement m name (.symbol (String.ofList name))).fail
            (.immediateRange (String.ofList name) n)))) ∧
      (s.assembleText (unitOf [constantLine name text, immediateLine m ('<' :: name)])).1 =
        .ok [opcode.code, byteOf n] := by
  have hne : name ≠ [] := by
    rintro rfl
    simp [isSymbol] at hname
  have hown : ∀ c ∈ name, isValuePart c = true := fun c hc => by
    simp [isValuePart, isSymbolPart_of_mem hname hc]
  have hsigned : ∀ c ∈ '<' :: name, isValuePart c = true :=
    List.forall_mem_cons.mpr ⟨by decide, hown⟩
  have hlow : immediateTerm? ('<' :: name) = some (.half .low (String.ofList name)) := if_pos hname
  rw [assembleText_named hfirst hclean hnew hopcode hlimit hne hown (immediateTerm?_symbol hname),
    assembleText_named hfirst hclean hnew hopcode hlimit (by simp) hsigned hlow,
    (immediateByte_named hnew _ _ _).1, (immediateByte_named hnew _ _ _).2]
  refine ⟨?_, rfl⟩
  split <;> rfl

end

theorem byteOf_word (v : Int) : byteOf (v % 0x10000).toNat = byteOf v := by
  have hlow : ((v % 0x10000).toNat : Int) % 0x100 = v % 0x100 := by omega
  rw [byteOf, hlow, byteOf]

/-- A name that is no symbol can be given to a constant, but not used. -/
theorem assembleText_not_symbol {s : Session} {m : Mnemonic} {name text : List Char}
    {cs : List Content} (hname : isConstantName name = true) (h : isSymbol name = false)
    (hfirst : readContents (constantLine name text) = .ok cs)
    (hclean : ∀ c ∈ constantLine name text, isBreak c = false) {operand : List Char}
    (hoperand : operand ∈ [name, '<' :: name]) :
    (s.assembleText (unitOf [constantLine name text, immediateLine m operand])).1 =
      .error (.assembly ⟨.invalidOperand (String.ofList ('#' :: operand)),
        some { file := mergedName, line := 2 }, some (String.ofList (immediateLine m operand))⟩) := by
  have hplain : operand ≠ [] ∧ ∀ c ∈ operand,
      isBlank c = false ∧ isBreak c = false ∧ c ≠ ';' ∧ c ≠ '\'' ∧ c ≠ '"' := by
    have hown := fun c => plain_of_isConstantName hname (c := c)
    simp only [List.mem_cons, List.not_mem_nil, or_false] at hoperand
    rcases hoperand with rfl | rfl
    · refine ⟨?_, hown⟩
      rintro rfl
      simp [isConstantName] at hname
    · exact ⟨by simp, List.forall_mem_cons.mpr ⟨by decide, hown⟩⟩
  obtain ⟨hne, hplain⟩ := hplain
  have hnone : immediateTerm? operand = none := by
    obtain ⟨hbare, hlow⟩ := immediateTerm?_of_not_symbol hname h
    simp only [List.mem_cons, List.not_mem_nil, or_false] at hoperand
    rcases hoperand with rfl | rfl
    · exact hbare
    · exact hlow
  have htrimmed : Trimmed operand := ⟨fun c hc => (hplain c (List.mem_of_mem_head? hc)).1,
    fun c hc => (hplain c (List.mem_of_getLast? hc)).1⟩
  have hsecond : readContents (immediateLine m operand) =
      .error (.fault { fault := .invalidOperand (String.ofList ('#' :: operand)) }) := by
    rw [readContents_immediateLine_eq m (stripComment_eq fun c hc => (hplain c hc).2.2),
      htrimmed.trim_eq, hnone, trimRight_eq_self htrimmed.last]
  have hlines : ∀ l ∈ [constantLine name text, immediateLine m operand], ∀ c ∈ l,
      isBreak c = false := by
    simp only [List.forall_mem_cons, List.not_mem_nil, false_imp_iff, implies_true, and_true]
    exact ⟨hclean, immediateLine_clean fun c hc => (hplain c hc).2.1⟩
  rw [assembleText_eq, readSource_second_refused mergedName hfirst hsecond hlines]
  rfl

/-- An immediate number and a constant with that number for its value: if both are assembled, the
name stands for the number just when it is not negative. A negative number is a word under its name,
which is refused unless its low byte is asked for; that byte is the one of the number. A name with a
letter that only a constant may have is never read again. -/
theorem named_immediate (s : Session) (m : Mnemonic) {name text : List Char} {v : Int}
    {code : List UInt8} (hname : isConstantName name = true) (htext : Spelled text v)
    (himmediate : (s.assembleText (unitOf [immediateLine m text])).1 = .ok code)
    (hconstant : ∃ bytes, (s.assembleText (unitOf [constantLine name text])).1 = .ok bytes) :
    (isSymbol name = true →
      (0 ≤ v →
        (s.assembleText (unitOf [constantLine name text, immediateLine m name])).1 = .ok code) ∧
      (v < 0 →
        (s.assembleText (unitOf [constantLine name text, immediateLine m name])).1 =
          .error (.assembly ⟨.immediateRange (String.ofList name) (v + 0x10000).toNat,
            some { file := mergedName, line := 2 },
            some (String.ofList (immediateLine m name))⟩)) ∧
      (s.assembleText (unitOf [constantLine name text, immediateLine m ('<' :: name)])).1 =
        .ok code) ∧
    (isSymbol name = false → ∀ operand ∈ [name, '<' :: name],
      (s.assembleText (unitOf [constantLine name text, immediateLine m operand])).1 =
        .error (.assembly ⟨.invalidOperand (String.ofList ('#' :: operand)),
          some { file := mergedName, line := 2 },
          some (String.ofList (immediateLine m operand))⟩)) := by
  obtain ⟨hbreak, hhigh, opcode, hopcode, hlimit, rfl⟩ := exists_of_immediate htext himmediate
  obtain ⟨bytes, hconstant⟩ := hconstant
  obtain ⟨hlow, hnew, hfirst⟩ := exists_of_constant hname htext hbreak hconstant
  have hclean := constantLine_clean hname hbreak
  refine ⟨fun hsymbol => ?_, fun hother operand hoperand =>
    assembleText_not_symbol hname hother hfirst hclean hoperand⟩
  obtain ⟨hbare, hselected⟩ := assembleText_symbol hfirst hclean hnew hopcode hlimit hsymbol
  rw [hbare, hselected, byteOf_word]
  refine ⟨fun hnonneg => if_pos (by omega), fun hneg => ?_, rfl⟩
  have hword : (v % 0x10000).toNat = (v + 0x10000).toNat := by omega
  rw [if_neg (by omega), hword]
  rfl

/-- A quoted semicolon, which opens no comment, is the same under a name, but not under one that
has a long s. -/
theorem semicolon_named :
    (assembleText { origin := 0x200 } (unitOf [immediateLine .lda ['\'', ';', '\'']])).1 =
      .ok [0xA9, 0x3B] ∧
    (∀ name ∈ [['N'], ['\u017f']], ∃ bytes, (assembleText { origin := 0x200 }
      (unitOf [constantLine name ['\'', ';', '\'']])).1 = .ok bytes) ∧
    (assembleText { origin := 0x200 }
      (unitOf [constantLine ['N'] ['\'', ';', '\''], immediateLine .lda ['N']])).1 =
        .ok [0xA9, 0x3B] ∧
    ∃ e, (assembleText { origin := 0x200 }
      (unitOf [constantLine ['\u017f'] ['\'', ';', '\''], immediateLine .lda ['\u017f']])).1 =
        .error e := by
  have hcode : (assembleText { origin := 0x200 }
      (unitOf [immediateLine .lda ['\'', ';', '\'']])).1 = .ok [0xA9, 0x3B] :=
    eq_ok_of_toOption (by decide +kernel)
  have hplain : ∃ bytes, (assembleText { origin := 0x200 }
      (unitOf [constantLine ['N'] ['\'', ';', '\'']])).1 = .ok bytes :=
    exists_eq_ok_of_isSome (by decide +kernel)
  have hlong : ∃ bytes, (assembleText { origin := 0x200 }
      (unitOf [constantLine ['\u017f'] ['\'', ';', '\'']])).1 = .ok bytes :=
    exists_eq_ok_of_isSome (by decide +kernel)
  have hspelled : Spelled ['\'', ';', '\''] 59 :=
    @Spelled.quoted ';' [] (by decide) (by simp)
  have hnamed := named_immediate { origin := 0x200 } .lda (by decide : isConstantName ['N'] = true)
    hspelled hcode hplain
  have hrefused := named_immediate { origin := 0x200 } .lda
    (by decide : isConstantName ['\u017f'] = true) hspelled hcode hlong
  exact ⟨hcode, by simpa using ⟨hplain, hlong⟩, (hnamed.1 (by decide)).1 (by decide),
    _, hrefused.2 (by decide) _ List.mem_cons_self⟩

/-- Under a name a negative number is a word, and no immediate. -/
theorem negative_refused :
    (assembleText { origin := 0x200 } (unitOf [immediateLine .lda ['-', '1']])).1 =
      .ok [0xA9, 0xFF] ∧
    (∃ bytes, (assembleText { origin := 0x200 }
      (unitOf [constantLine ['N'] ['-', '1']])).1 = .ok bytes) ∧
    (assembleText { origin := 0x200 }
      (unitOf [constantLine ['N'] ['-', '1'], immediateLine .lda ['N']])).1 ≠
        .ok [0xA9, 0xFF] := by
  have hrefused : (assembleText { origin := 0x200 } (unitOf [constantLine ['N'] ['-', '1'],
      immediateLine .lda ['N']])).1.toOption = none := by decide +kernel
  refine ⟨eq_ok_of_toOption (by decide +kernel), exists_eq_ok_of_isSome (by decide +kernel), ?_⟩
  intro h
  simp [h, Except.toOption] at hrefused

end Session

end Toolchain6502.Assembly
