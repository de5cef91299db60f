import Toolchain6502.Proofs.Assembly.NamedImmediate

namespace Toolchain6502.Assembly

open Text Cpu

variable {word : Option Term} {t : Term} {body : List Char} {o : Operand}

/-- The text of a value: it has no blank and no punctuation. -/
structure ValueText (value : List Char) : Prop where
  ne : value ≠ []
  parts : ∀ c ∈ value, isValuePart c = true

namespace ValueText

variable {value : List Char}

theorem solid (h : ValueText value) : Solid value := solid_of_parts h.ne h.parts

theorem not_mem (h : ValueText value) {c : Char} (hc : isValuePart c = false) : c ∉ value := by
  intro hmem
  simp [h.parts c hmem] at hc

theorem head?_ne (h : ValueText value) (rest : List Char) {c : Char} (hc : isValuePart c = false) :
    (value ++ rest).head? ≠ some c := by
  rw [List.head?_append_of_ne_nil _ h.ne]
  exact fun hhead => h.not_mem hc (List.mem_of_mem_head? hhead)

theorem oneLine? (h : ValueText value) : Assembly.oneLine? value = some value := by
  simp [Assembly.oneLine?, h.not_mem (c := '\n') (by decide)]

theorem beforeIndex? (h : ValueText value) (register : Char) :
    Assembly.beforeIndex? register value = none :=
  beforeIndex?_eq_none (h.not_mem (by decide))

theorem insideParens? (h : ValueText value) : Assembly.insideParens? value = none :=
  insideParens?_eq_none fun hhead => h.not_mem (c := '(') (by decide) (List.mem_of_mem_head? hhead)

end ValueText

theorem read?_eq_none_of_not_solid {text : List Char} (h : ¬Solid text) :
    Literal.read? text = none := by
  cases hread : Literal.read? text with
  | none => rfl
  | some l => exact absurd (written_of_read? hread).solid h

/-- The forms that are tried first take nothing from a text in parentheses. -/
theorem body?_parens (inner : List Char) :
    beforeIndex? 'Y' ('(' :: (inner ++ [')'])) = none ∧
      accumulatorForm.body? ('(' :: (inner ++ [')'])) = none ∧
      immediateForm.body? ('(' :: (inner ++ [')'])) = none :=
  ⟨by simp [beforeIndex?], by simp [accumulatorForm], immediateForm_eq_none (by simp)⟩

section

variable {value a b c d : List Char} {t : Term} (hvalue : ValueText value)
  (ha : ∀ x ∈ a, isBlank x = true) (hb : ∀ x ∈ b, isBlank x = true)

include hvalue ha hb

theorem insideParens?_blanks :
    insideParens? ('(' :: (a ++ value ++ b ++ [')'])) = some value :=
  insideParens?_eq_some.mpr
    ⟨a ++ value ++ b, rfl, (hvalue.solid.trimmed.trim_append hvalue.ne ha hb).symm⟩

theorem firstForm?_indirect (h : wordTerm? true true value = .ok (some t)) :
    firstForm? ('(' :: (a ++ value ++ b ++ [')'])) forms = .ok (some ⟨.fixed .indirect, t⟩) := by
  have hinside := insideParens?_blanks hvalue ha hb
  obtain ⟨hindex, haccumulator, himmediate⟩ := body?_parens (a ++ value ++ b)
  generalize '(' :: (a ++ value ++ b ++ [')']) = text at *
  simp [forms, firstForm?, Form.read?, haccumulator, himmediate, byteForm, wordForm, hinside,
    hindex, hvalue.beforeIndex?, hvalue.oneLine?, h]

theorem firstForm?_indirectIndexed (hc : ∀ x ∈ c, isBlank x = true) (hd : ∀ x ∈ d, isBlank x = true)
    (h : byteTerm? value = some t) :
    firstForm? (('(' :: (a ++ value ++ b ++ [')'])) ++ c ++ ',' :: (d ++ ['Y'])) forms =
      .ok (some ⟨.fixed .indirectIndexed, t⟩) := by
  have hlast : ∀ x ∈ ('(' :: (a ++ value ++ b ++ [')'])).getLast?, isBlank x = false := by
    rw [getLast?_cons_concat]
    simp [isBlank]
  have hindex := beforeIndex?_of_blanks (c := 'Y') 'Y' hlast hc hd
  rw [if_pos (by decide)] at hindex
  have hbody : (beforeIndex? 'Y' (('(' :: (a ++ value ++ b ++ [')'])) ++ c ++
      ',' :: (d ++ ['Y']))).bind insideParens? = some value := by
    rw [hindex, Option.bind_some, insideParens?_blanks hvalue ha hb]
  unfold forms
  rw [firstForm?_cons_of_none, firstForm?_cons_of_none, firstForm?_cons_of_some]
  · simp only [Form.read?, byteForm, hbody, Option.bind_some, hvalue.oneLine?, h, ok_bind]
    rfl
  · rw [Form.read?, immediateForm_eq_none (by simp)]
  · simp [Form.read?, accumulatorForm]

theorem firstForm?_indexedIndirect (hc : ∀ x ∈ c, isBlank x = true) (hd : ∀ x ∈ d, isBlank x = true)
    (h : byteTerm? value = some t) :
    firstForm? ('(' :: (a ++ (value ++ b ++ ',' :: (c ++ ['X'])) ++ d ++ [')'])) forms =
      .ok (some ⟨.fixed .indexedIndirect, t⟩) := by
  have hindexed : Punctuated value (value ++ b ++ ',' :: (c ++ ['X'])) :=
    .indexed hb hc (by decide) .bare
  obtain ⟨hne, htrimmed⟩ := hindexed.trimmed hvalue.solid
  have hbefore : beforeIndex? 'X' (value ++ b ++ ',' :: (c ++ ['X'])) = some value := by
    rw [beforeIndex?_of_blanks 'X' hvalue.solid.trimmed.last hb hc, if_pos (by decide)]
  generalize value ++ b ++ ',' :: (c ++ ['X']) = inner at *
  have hinside : insideParens? ('(' :: (a ++ inner ++ d ++ [')'])) = some inner :=
    insideParens?_eq_some.mpr ⟨a ++ inner ++ d, rfl, (htrimmed.trim_append hne ha hd).symm⟩
  obtain ⟨hindex, haccumulator, himmediate⟩ := body?_parens (a ++ inner ++ d)
  generalize '(' :: (a ++ inner ++ d ++ [')']) = text at *
  simp [forms, firstForm?, Form.read?, haccumulator, himmediate, byteForm, hinside, hindex, hbefore,
    hvalue.oneLine?, h]

end

def indexedModes (register : Char) : Mode × Mode :=
  if register = 'X' then (.absoluteX, .zeroPageX) else (.absoluteY, .zeroPageY)

/-- A value before an index register is a word or else a byte. -/
theorem firstForm?_beforeIndex {value a b : List Char} {register : Char} (hvalue : ValueText value)
    (ha : ∀ x ∈ a, isBlank x = true) (hb : ∀ x ∈ b, isBlank x = true)
    (hregister : register.toUpper = 'X' ∨ register.toUpper = 'Y')
    (hword : wordTerm? false true value = .ok word) :
    firstForm? (value ++ a ++ ',' :: (b ++ [register])) forms =
      .ok ((word.map fun t => ⟨.fixed (indexedModes register.toUpper).1, t⟩) <|>
        (byteTerm? value).map fun t => ⟨.fixed (indexedModes register.toUpper).2, t⟩) := by
  have hindex (r : Char) :=
    beforeIndex?_of_blanks (c := register) r hvalue.solid.trimmed.last ha hb
  have hinside : insideParens? (value ++ a ++ ',' :: (b ++ [register])) = none := by
    rw [List.append_assoc]
    exact insideParens?_eq_none (hvalue.head?_ne _ (by decide))
  have haccumulator : accumulatorForm.body? (value ++ a ++ ',' :: (b ++ [register])) = none := by
    have hcomma : ',' ∈ value ++ a ++ ',' :: (b ++ [register]) := by simp
    generalize value ++ a ++ ',' :: (b ++ [register]) = text at hcomma
    have hne : text ≠ ['A'] ∧ text ≠ ['a'] := by
      constructor <;> rintro rfl <;> simp at hcomma
    simp [accumulatorForm, hne]
  have himmediate : immediateForm.body? (value ++ a ++ ',' :: (b ++ [register])) = none := by
    rw [List.append_assoc]
    exact immediateForm_eq_none (hvalue.head?_ne _ (by decide))
  have hread : Literal.read? (value ++ a ++ ',' :: (b ++ [register])) = none := by
    refine read?_eq_none_of_not_solid fun h => h.index (endsIndexed_indexed ?_)
    simpa [isIndex] using hregister
  generalize value ++ a ++ ',' :: (b ++ [register]) = text at *
  have hplain : wordTerm? false false text = .ok none ∧ byteTerm? text = none := by
    simp [wordTerm?, byteTerm?, hread]
  rcases hregister with hregister | hregister <;> cases word <;> cases hbyte : byteTerm? value <;>
    simp [forms, firstForm?, Form.read?, haccumulator, himmediate, byteForm, wordForm, hinside,
      hindex, hregister, hvalue.oneLine?, hvalue.insideParens?, hword, hbyte, absoluteForm,
      directForm, hplain, indexedModes]

/-- A value that stands alone is a word or else a byte. -/
theorem firstForm?_alone {value : List Char} (hvalue : ValueText value)
    (haccumulator : value ≠ ['A'] ∧ value ≠ ['a']) (hword : wordTerm? false false value = .ok word) :
    firstForm? value forms = .ok ((word.map fun t => ⟨.fixed .absolute, t⟩) <|>
      (byteTerm? value).map fun t => ⟨.direct, t⟩) := by
  have hparen : value.head? ≠ some '(' := fun hhead =>
    hvalue.not_mem (c := '(') (by decide) (List.mem_of_mem_head? hhead)
  have himmediate : immediateForm.body? value = none := immediateForm_eq_none fun hhead =>
    hvalue.not_mem (c := '#') (by decide) (List.mem_of_mem_head? hhead)
  rw [firstForm?_of_plain (hvalue.not_mem (by decide)) hparen]
  cases word <;> cases hbyte : byteTerm? value <;>
    simp [firstForm?, Form.read?, accumulatorForm, haccumulator, himmediate, absoluteForm,
      directForm, hword, hbyte]

/-- The canonical text of a value: hexadecimal digits, decimal ones after a minus sign, or a
name. -/
def Term.text (digits : Nat) : Term → List Char
  | .number n => '$' :: (hex digits n).toList
  | .minus n => '-' :: Nat.toDigits 10 n
  | .symbol name => name.toList
  | .half .low name => '<' :: name.toList
  | .half .high name => '>' :: name.toList

theorem valueText_number (w n : Nat) : ValueText ((Term.number n).text w) := by
  refine ⟨by simp [Term.text], List.forall_mem_cons.mpr ⟨by decide, fun c hc => ?_⟩⟩
  simp [isValuePart, isSymbolPart_of_isHexDigit (isHexDigit_of_mem_hex hc)]

theorem valueText_minus (w n : Nat) : ValueText ((Term.minus n).text w) := by
  refine ⟨by simp [Term.text], List.forall_mem_cons.mpr ⟨by decide, fun c hc => ?_⟩⟩
  simp [isValuePart, isSymbolPart_of_isDigit (isDigit_of_mem_decimalDigits n c hc)]

theorem valueText_symbol {name : List Char} (hname : isSymbol name = true) : ValueText name := by
  refine ⟨?_, fun c hc => by simp [isValuePart, isSymbolPart_of_mem hname hc]⟩
  rintro rfl
  simp [isSymbol] at hname

theorem positional_toDigits {n : Nat} (hn : n < 10 ^ maxDecimalDigits) :
    positional 10 (Nat.toDigits 10 n) = n := by
  have hvalue := (runValue?_of_isDigit (isDigit_of_mem_decimalDigits n)).symm.trans
    (runValue?_of_decimal (decimal_toDigits hn))
  exact Option.some.inj hvalue

theorem read?_minus (n : Nat) :
    Literal.read? ('-' :: Nat.toDigits 10 n) = some (.decimal true (Nat.toDigits 10 n)) :=
  decimalLiteral?_eq_some_iff.mpr ⟨by simp, isDigit_of_mem_decimalDigits n, rfl⟩

theorem byteTerm?_minus {n : Nat} (hn : n ≤ 0xFF) (w : Nat) :
    byteTerm? ((Term.minus n).text w) = some (.minus n) := by
  have hlength : (Nat.toDigits 10 n).length ≤ 3 :=
    (Nat.length_toDigits_le_iff (by decide) (by decide)).mpr (by omega)
  have hlimit : 10 ^ 3 ≤ 10 ^ maxDecimalDigits := Nat.pow_le_pow_right (by decide) (by decide)
  have hvalue : positional 10 (Nat.toDigits 10 n) = n := positional_toDigits (by omega)
  simp [Term.text, byteTerm?, read?_minus, Literal.byte?, hlength, hvalue, hn]

theorem wordTerm?_minus (loose named : Bool) (n w : Nat) :
    wordTerm? loose named ((Term.minus n).text w) = .ok none := by
  simp [Term.text, wordTerm?, read?_minus, Literal.word?]

theorem wordTerm?_word {n : Nat} (hn : n ≤ 0xFFFF) (loose named : Bool) :
    wordTerm? loose named ((Term.number n).text 4) = .ok (some (.number n)) := by
  obtain ⟨hvalue, hwidth⟩ := hex_spells 4 n
  have hlong : ¬(hex 4 n).toList.length ≤ 2 := by omega
  simp only [Term.text, wordTerm?, Literal.read?, hexLiteral?_natural 3 n, Literal.word?,
    wordNumber?, hvalue]
  simp [hn, hlong]

theorem byteTerm?_symbol {name : String} (hname : isSymbol name.toList = true) :
    byteTerm? name.toList = some (.symbol name) := by
  simp [byteTerm?, read?_symbol hname, Literal.byte?]

theorem wordTerm?_symbol {name : String} (hname : isSymbol name.toList = true)
    (loose named : Bool) :
    wordTerm? loose named name.toList = .ok (if named then some (.symbol name) else none) := by
  simp [wordTerm?, read?_symbol hname, Literal.word?]

theorem immediateTerm?_eq_byteTerm? {value : List Char}
    (h : ∀ c ∈ value.head?, c ≠ '<' ∧ c ≠ '>') : immediateTerm? value = byteTerm? value := by
  unfold immediateTerm?
  split
  · simp at h
  · simp at h
  · rfl

def Term.IsByte : Term → Prop
  | .number n | .minus n => n ≤ 0xFF
  | .symbol _ | .half _ _ => False

/-- A byte is read from its canonical text, and never taken for a word. -/
theorem Term.IsByte.reads (h : t.IsByte) :
    ValueText (t.text 2) ∧ byteTerm? (t.text 2) = some t ∧ immediateTerm? (t.text 2) = some t ∧
      ∀ named, wordTerm? false named (t.text 2) = .ok none := by
  cases t with
  | number n =>
    have hn : n ≤ 0xFF := h
    have hlength : (upperHex n).length ≤ 2 := (length_upperHex_le_iff (by omega)).mpr (by omega)
    refine ⟨valueText_number 2 n, byteTerm?_byte hn, ?_, fun named => ?_⟩
    · rw [immediateTerm?_eq_byteTerm? (by simp [Term.text])]
      exact byteTerm?_byte hn
    · exact wordTerm?_number (w := 1) (by omega) hlength named
  | minus n =>
    refine ⟨valueText_minus 2 n, byteTerm?_minus h 2, ?_, fun named => wordTerm?_minus _ named n 2⟩
    rw [immediateTerm?_eq_byteTerm? (by simp [Term.text])]
    exact byteTerm?_minus h 2
  | symbol name => exact h.elim
  | half half name => exact h.elim

def wordShapes : List Shape := [
  .fixed .absolute, .fixed .absoluteX, .fixed .absoluteY, .fixed .indirect]

def namedShapes : List Shape := [
  .direct, .fixed .immediate, .fixed .indexedIndirect, .fixed .indirectIndexed, .fixed .indirect,
  .fixed .absoluteX, .fixed .absoluteY]

inductive Operand.Readable : Operand → Prop
  | implied : Readable .implied
  | accumulator : Readable ⟨.fixed .accumulator, .number 0⟩
  | byte {shape : Shape} {t : Term} (hshape : shape ∈ signedShapes) (ht : t.IsByte) :
      Readable ⟨shape, t⟩
  | word {shape : Shape} {n : Nat} (hshape : shape ∈ wordShapes) (hn : n ≤ 0xFFFF) :
      Readable ⟨shape, .number n⟩
  | symbol {shape : Shape} {name : String} (hshape : shape ∈ namedShapes)
      (hname : isSymbol name.toList = true)
      (hother : shape = .direct → name.toList ≠ ['A'] ∧ name.toList ≠ ['a']) :
      Readable ⟨shape, .symbol name⟩
  | half {half : Half} {name : String} (hname : isSymbol name.toList = true) :
      Readable ⟨.fixed .immediate, .half half name⟩

theorem byteTerm?_cases (h : byteTerm? body = some t) :
    t.IsByte ∨ isSymbol body = true ∧ t = .symbol (String.ofList body) := by
  rcases byteTerm?_eq_some h with hsymbol | ⟨v, -, hnumber, hlow, hhigh⟩
  · exact .inr hsymbol
  · left
    cases t with
    | number n =>
      have hv : (n : Int) = v := Option.some.inj hnumber
      change n ≤ 0xFF
      omega
    | minus n =>
      have hv : -(n : Int) = v := Option.some.inj hnumber
      change n ≤ 0xFF
      omega
    | symbol name => simp [Term.number?] at hnumber
    | half half name => simp [Term.number?] at hnumber

theorem wordTerm?_number_or_symbol {loose named : Bool}
    (h : wordTerm? loose named body = .ok (some t)) :
    (∃ n, n ≤ 0xFFFF ∧ t = .number n) ∨
      isSymbol body = true ∧ named = true ∧ t = .symbol (String.ofList body) := by
  rcases wordTerm?_eq_some h with ⟨hsymbol, rfl⟩ | ⟨v, -, hnumber, hlow, hhigh⟩
  · right
    have hname : isSymbol (String.ofList body).toList = true := by simpa using hsymbol
    have hread := wordTerm?_symbol hname loose named
    rw [String.toList_ofList, h] at hread
    cases named with
    | false => simp at hread
    | true => exact ⟨hsymbol, rfl, rfl⟩
  · left
    rcases wordTerm?_cases h with ⟨n, rfl⟩ | ⟨name, rfl⟩
    · have hv : (n : Int) = v := Option.some.inj hnumber
      exact ⟨n, by omega, rfl⟩
    · simp [Term.number?] at hnumber

theorem readable_byteTerm? {shape : Shape} (hbyte : shape ∈ signedShapes)
    (hnamed : shape ∈ namedShapes) (hshape : shape ≠ .direct) (h : byteTerm? body = some t) :
    Operand.Readable ⟨shape, t⟩ := by
  rcases byteTerm?_cases h with ht | ⟨hsymbol, rfl⟩
  · exact .byte hbyte ht
  · exact .symbol hnamed (by simpa using hsymbol) fun hdirect => absurd hdirect hshape

theorem readable_immediateTerm? (h : immediateTerm? body = some t) :
    Operand.Readable ⟨.fixed .immediate, t⟩ := by
  unfold immediateTerm? at h
  split at h
  · split_ifs at h with hsymbol
    exact Option.some.inj h ▸ .half (by simpa using hsymbol)
  · split_ifs at h with hsymbol
    exact Option.some.inj h ▸ .half (by simpa using hsymbol)
  · exact readable_byteTerm? (by decide) (by decide) (by decide) h

theorem readable_wordTerm? {shape : Shape} {loose : Bool} (hword : shape ∈ wordShapes)
    (hnamed : shape ∈ namedShapes) (hshape : shape ≠ .direct)
    (h : wordTerm? loose true body = .ok (some t)) : Operand.Readable ⟨shape, t⟩ := by
  rcases wordTerm?_number_or_symbol h with ⟨n, hn, rfl⟩ | ⟨hsymbol, -, rfl⟩
  · exact .word hword hn
  · exact .symbol hnamed (by simpa using hsymbol) fun hdirect => absurd hdirect hshape

/-- A name before an index register is a word, so the forms of bytes never get one. -/
theorem readable_zeroPage {text : List Char} {register : Char}
    (hregister : register = 'X' ∨ register = 'Y') (hbody : beforeIndex? register text = some body)
    (hterm : byteTerm? body = some t)
    (h : firstForm? text forms = .ok (some ⟨.fixed (indexedModes register).2, t⟩)) :
    Operand.Readable ⟨.fixed (indexedModes register).2, t⟩ := by
  rcases byteTerm?_cases hterm with ht | ⟨hsymbol, rfl⟩
  · exact .byte (by rcases hregister with rfl | rfl <;> decide) ht
  · obtain ⟨front, back, c, rfl, rfl, hfront, hback⟩ := beforeIndex?_eq_some hbody
    have hname : isSymbol (String.ofList body).toList = true := by simpa using hsymbol
    have hword := wordTerm?_symbol hname false true
    rw [String.toList_ofList, if_pos rfl] at hword
    rw [firstForm?_beforeIndex (valueText_symbol hsymbol) hfront hback hregister hword] at h
    have hmodes : (indexedModes c.toUpper).1 = (indexedModes c.toUpper).2 := by simpa using h
    rcases hregister with hc | hc <;> rw [hc] at hmodes <;> exact absurd hmodes (by decide)

theorem readable_of_firstForm? {text : List Char} (h : firstForm? text forms = .ok (some o)) :
    o.Readable := by
  obtain ⟨f, hf, hread⟩ := firstForm?_eq_some h
  obtain ⟨body, t, hbody, hterm, rfl⟩ := Form.read?_eq_some hread
  have hinner {body? : List Char → Option (List Char)}
      (h : (body? text).bind oneLine? = some body) : body? text = some body := by
    obtain ⟨own, hown, hline⟩ := Option.bind_eq_some_iff.mp h
    exact oneLine?_eq_some hline ▸ hown
  clear hread
  revert f
  apply forall_forms
  case accumulator =>
    intro hbody hterm h
    obtain rfl := Option.some.inj (Except.ok.inj hterm)
    exact .accumulator
  case immediate => exact fun hbody hterm h => readable_immediateTerm? (Except.ok.inj hterm)
  case indirectIndexed | indexedIndirect =>
    intro hbody hterm h
    exact readable_byteTerm? (by decide) (by decide) (by decide) (Except.ok.inj hterm)
  case indirect | absoluteX | absoluteY =>
    intro hbody hterm h
    exact readable_wordTerm? (by decide) (by decide) (by decide) hterm
  case absolute =>
    intro hbody hterm h
    rcases wordTerm?_number_or_symbol hterm with ⟨n, hn, rfl⟩ | ⟨-, hnamed, -⟩
    · exact .word (by decide) hn
    · simp at hnamed
  case zeroPageX =>
    intro hbody hterm h
    exact readable_zeroPage (.inl rfl) (hinner hbody) (Except.ok.inj hterm) h
  case zeroPageY =>
    intro hbody hterm h
    exact readable_zeroPage (.inr rfl) (hinner hbody) (Except.ok.inj hterm) h
  case direct =>
    intro hbody hterm h
    obtain rfl : text = body := Option.some.inj hbody
    rcases byteTerm?_cases (Except.ok.inj hterm) with ht | ⟨hsymbol, rfl⟩
    · exact .byte (by decide) ht
    · refine .symbol (by decide) (by simpa using hsymbol) fun _ => ?_
      rw [firstForm?_symbol hsymbol] at h
      by_contra haccumulator
      rw [String.toList_ofList, ← not_or, not_not] at haccumulator
      rw [if_pos haccumulator] at h
      simp [directForm] at h

theorem Operand.readable_of_read? {text : List Char} (h : Operand.read? text = .ok (some o)) :
    o.Readable := by
  unfold Operand.read? at h
  split_ifs at h
  · obtain rfl := Option.some.inj (Except.ok.inj h)
    exact .implied
  · exact readable_of_firstForm? h

def Shape.tokens (value : List Char) : Shape → List (List Char)
  | .fixed .implied => []
  | .fixed .accumulator => [['A']]
  | .fixed .immediate => [['#'], value]
  | .fixed .zeroPageX | .fixed .absoluteX => [value, [','], ['X']]
  | .fixed .zeroPageY | .fixed .absoluteY => [value, [','], ['Y']]
  | .fixed .indexedIndirect => [['('], value, [','], ['X'], [')']]
  | .fixed .indirectIndexed => [['('], value, [')'], [','], ['Y']]
  | .fixed .indirect => [['('], value, [')']]
  | .fixed .absolute | .fixed .zeroPage | .fixed .relative | .direct => [value]

/-- A byte has two digits and a word four. -/
def Operand.tokens (o : Operand) : List (List Char) :=
  o.shape.tokens (o.term.text (2 * o.shape.width))

def Operand.text (o : Operand) : List Char := o.tokens.flatten

/-- How a form reads a value: forms that are tried before it must leave the value alone. -/
def Shape.Reads (value : List Char) (t : Term) : Shape → Prop
  | .fixed .implied | .fixed .accumulator => t = .number 0
  | .fixed .immediate => immediateTerm? value = some t
  | .fixed .indexedIndirect | .fixed .indirectIndexed => byteTerm? value = some t
  | .fixed .indirect => wordTerm? true true value = .ok (some t)
  | .fixed .absoluteX | .fixed .absoluteY => wordTerm? false true value = .ok (some t)
  | .fixed .zeroPageX | .fixed .zeroPageY =>
    wordTerm? false true value = .ok none ∧ byteTerm? value = some t
  | .fixed .absolute =>
    (value ≠ ['A'] ∧ value ≠ ['a']) ∧ wordTerm? false false value = .ok (some t)
  | .direct =>
    (value ≠ ['A'] ∧ value ≠ ['a']) ∧ wordTerm? false false value = .ok none ∧
      byteTerm? value = some t
  | .fixed .zeroPage | .fixed .relative => False

section

variable {value text : List Char} {t : Term} (hvalue : ValueText value)

include hvalue

theorem Operand.read?_punctuated {front core back : List Char} (h : Punctuated value core)
    (hfront : ∀ b ∈ front, isBlank b = true) (hback : ∀ b ∈ back, isBlank b = true) :
    Operand.read? (front ++ core ++ back) = firstForm? core forms := by
  obtain ⟨hne, htrimmed⟩ := h.trimmed hvalue.solid
  rw [Operand.read?, trim_append_blanks core hfront hback, htrimmed.trim_eq,
    if_neg (by simpa using hne)]

theorem read?_spaced_alone (haccumulator : value ≠ ['A'] ∧ value ≠ ['a'])
    (hword : wordTerm? false false value = .ok word) (h : Spaced [value] text) :
    Operand.read? text = .ok ((word.map fun t => ⟨.fixed .absolute, t⟩) <|>
      (byteTerm? value).map fun t => ⟨.direct, t⟩) := by
  obtain _ | ⟨ha, hb | _⟩ := h
  rw [Operand.read?_punctuated hvalue .bare ha hb, firstForm?_alone hvalue haccumulator hword]

theorem read?_spaced_index {register : Char} (hregister : register = 'X' ∨ register = 'Y')
    (hword : wordTerm? false true value = .ok word) (h : Spaced [value, [','], [register]] text) :
    Operand.read? text = .ok ((word.map fun t => ⟨.fixed (indexedModes register).1, t⟩) <|>
      (byteTerm? value).map fun t => ⟨.fixed (indexedModes register).2, t⟩) := by
  have hupper : register.toUpper = register := by rcases hregister with rfl | rfl <;> decide
  obtain _ | @⟨a, _, _, _, ha, _ | @⟨b, _, _, _, hb, _ | @⟨c, _, d, _, hc, hd | _⟩⟩⟩ := h
  have hcore : Punctuated value (value ++ b ++ ',' :: (c ++ [register])) :=
    .indexed hb hc (by simpa [isIndex, hupper] using hregister) .bare
  have htext : a ++ value ++ (b ++ [','] ++ (c ++ [register] ++ d)) =
      a ++ (value ++ b ++ ',' :: (c ++ [register])) ++ d := by simp
  rw [htext, Operand.read?_punctuated hvalue hcore ha hd,
    firstForm?_beforeIndex hvalue hb hc (by rwa [hupper]) hword, hupper]

theorem read?_spaced_immediate (hterm : immediateTerm? value = some t)
    (h : Spaced [['#'], value] text) :
    Operand.read? text = .ok (some ⟨.fixed .immediate, t⟩) := by
  obtain _ | @⟨a, _, _, _, ha, _ | @⟨b, _, c, _, hb, hc | _⟩⟩ := h
  have htext : a ++ ['#'] ++ (b ++ value ++ c) = a ++ '#' :: (b ++ value) ++ c := by simp
  have htrim : trim (b ++ value) = value := by
    have hnone : ∀ x ∈ ([] : List Char), isBlank x = true := by simp
    have := hvalue.solid.trimmed.trim_append hvalue.ne hb hnone
    rwa [List.append_nil] at this
  rw [htext, Operand.read?_punctuated hvalue (.sharp hb) ha hc, firstForm?_sharp, htrim, hterm]
  rfl

theorem read?_spaced_indirect (hterm : wordTerm? true true value = .ok (some t))
    (h : Spaced [['('], value, [')']] text) :
    Operand.read? text = .ok (some ⟨.fixed .indirect, t⟩) := by
  obtain _ | @⟨a, _, _, _, ha, _ | @⟨b, _, _, _, hb, _ | @⟨c, _, d, _, hc, hd | _⟩⟩⟩ := h
  have htext : a ++ ['('] ++ (b ++ value ++ (c ++ [')'] ++ d)) =
      a ++ '(' :: (b ++ value ++ c ++ [')']) ++ d := by simp
  rw [htext, Operand.read?_punctuated hvalue (.parens hb hc .bare) ha hd,
    firstForm?_indirect hvalue hb hc hterm]

theorem read?_spaced_indexedIndirect (hterm : byteTerm? value = some t)
    (h : Spaced [['('], value, [','], ['X'], [')']] text) :
    Operand.read? text = .ok (some ⟨.fixed .indexedIndirect, t⟩) := by
  obtain _ | @⟨a, _, _, _, ha, _ | @⟨b, _, _, _, hb, _ | @⟨c, _, _, _, hc,
    _ | @⟨d, _, _, _, hd, _ | @⟨e, _, f, _, he, hf | _⟩⟩⟩⟩⟩ := h
  have hcore : Punctuated value ('(' :: (b ++ (value ++ c ++ ',' :: (d ++ ['X'])) ++ e ++ [')'])) :=
    .parens hb he (.indexed hc hd (by decide) .bare)
  have htext : a ++ ['('] ++ (b ++ value ++ (c ++ [','] ++ (d ++ ['X'] ++ (e ++ [')'] ++ f)))) =
      a ++ '(' :: (b ++ (value ++ c ++ ',' :: (d ++ ['X'])) ++ e ++ [')']) ++ f := by simp
  rw [htext, Operand.read?_punctuated hvalue hcore ha hf,
    firstForm?_indexedIndirect hvalue hb hc hd he hterm]

theorem read?_spaced_indirectIndexed (hterm : byteTerm? value = some t)
    (h : Spaced [['('], value, [')'], [','], ['Y']] text) :
    Operand.read? text = .ok (some ⟨.fixed .indirectIndexed, t⟩) := by
  obtain _ | @⟨a, _, _, _, ha, _ | @⟨b, _, _, _, hb, _ | @⟨c, _, _, _, hc,
    _ | @⟨d, _, _, _, hd, _ | @⟨e, _, f, _, he, hf | _⟩⟩⟩⟩⟩ := h
  have hcore : Punctuated value
      (('(' :: (b ++ value ++ c ++ [')'])) ++ d ++ ',' :: (e ++ ['Y'])) :=
    .indexed hd he (by decide) (.parens hb hc .bare)
  have htext : a ++ ['('] ++ (b ++ value ++ (c ++ [')'] ++ (d ++ [','] ++ (e ++ ['Y'] ++ f)))) =
      a ++ (('(' :: (b ++ value ++ c ++ [')'])) ++ d ++ ',' :: (e ++ ['Y'])) ++ f := by simp
  rw [htext, Operand.read?_punctuated hvalue hcore ha hf,
    firstForm?_indirectIndexed hvalue hb hc hd he hterm]

/-- A value is read back from the punctuation of its form. -/
theorem Shape.Reads.read?_spaced {shape : Shape} (hreads : shape.Reads value t)
    (h : Spaced (shape.tokens value) text) : Operand.read? text = .ok (some ⟨shape, t⟩) := by
  cases shape with
  | direct =>
    obtain ⟨haccumulator, hword, hbyte⟩ := hreads
    rw [read?_spaced_alone hvalue haccumulator hword h, hbyte]
    rfl
  | fixed mode =>
    cases mode with
    | implied =>
      obtain rfl : t = .number 0 := hreads
      obtain ha | _ := h
      rw [Operand.read?, trim_of_blanks ha]
      rfl
    | accumulator =>
      obtain rfl : t = .number 0 := hreads
      obtain _ | ⟨ha, hb | _⟩ := h
      rw [Operand.read?, trim_append_blanks _ ha hb]
      decide
    | zeroPageX =>
      rw [read?_spaced_index hvalue (.inl rfl) hreads.1 h, hreads.2]
      rfl
    | zeroPageY =>
      rw [read?_spaced_index hvalue (.inr rfl) hreads.1 h, hreads.2]
      rfl
    | absoluteX =>
      rw [read?_spaced_index hvalue (.inl rfl) hreads h]
      rfl
    | absoluteY =>
      rw [read?_spaced_index hvalue (.inr rfl) hreads h]
      rfl
    | absolute =>
      rw [read?_spaced_alone hvalue hreads.1 hreads.2 h]
      rfl
    | immediate => exact read?_spaced_immediate hvalue hreads h
    | indirect => exact read?_spaced_indirect hvalue hreads h
    | indexedIndirect => exact read?_spaced_indexedIndirect hvalue hreads h
    | indirectIndexed => exact read?_spaced_indirectIndexed hvalue hreads h
    | zeroPage | relative => exact hreads.elim

end

theorem immediateTerm?_half (half : Half) {name : String} (hname : isSymbol name.toList = true) :
    ValueText ((Term.half half name).text 2) ∧
      immediateTerm? ((Term.half half name).text 2) = some (.half half name) := by
  have hparts := (valueText_symbol hname).parts
  cases half with
  | low =>
    exact ⟨⟨by simp [Term.text], List.forall_mem_cons.mpr ⟨by decide, hparts⟩⟩,
      by simp [Term.text, immediateTerm?, hname]⟩
  | high =>
    exact ⟨⟨by simp [Term.text], List.forall_mem_cons.mpr ⟨by decide, hparts⟩⟩,
      by simp [Term.text, immediateTerm?, hname]⟩

theorem ne_accumulator {c : Char} (hc : c.isAlpha = false) (rest : List Char) :
    c :: rest ≠ ['A'] ∧ c :: rest ≠ ['a'] := by
  constructor <;> rintro ⟨⟩ <;> exact absurd hc (by decide)

/-- Every form reads what its canonical text holds. -/
theorem Operand.Readable.reads (h : o.Readable) :
    ValueText (o.term.text (2 * o.shape.width)) ∧
      o.shape.Reads (o.term.text (2 * o.shape.width)) o.term := by
  cases h with
  | implied => exact ⟨valueText_number 0 0, rfl⟩
  | accumulator => exact ⟨valueText_number 0 0, rfl⟩
  | @byte shape t hshape ht =>
    obtain ⟨hvalue, hbyte, himmediate, hword⟩ := ht.reads
    have hother : t.text 2 ≠ ['A'] ∧ t.text 2 ≠ ['a'] := by
      cases t with
      | number n => exact ne_accumulator rfl _
      | minus n => exact ne_accumulator rfl _
      | symbol name => exact ht.elim
      | half half name => exact ht.elim
    simp only [signedShapes, List.mem_cons, List.not_mem_nil, or_false] at hshape
    rcases hshape with rfl | rfl | rfl | rfl | rfl | rfl
    · exact ⟨hvalue, hother, hword false, hbyte⟩
    · exact ⟨hvalue, himmediate⟩
    · exact ⟨hvalue, hword true, hbyte⟩
    · exact ⟨hvalue, hword true, hbyte⟩
    · exact ⟨hvalue, hbyte⟩
    · exact ⟨hvalue, hbyte⟩
  | @word shape n hshape hn =>
    have hvalue := valueText_number 4 n
    simp only [wordShapes, List.mem_cons, List.not_mem_nil, or_false] at hshape
    rcases hshape with rfl | rfl | rfl | rfl
    · exact ⟨hvalue, ne_accumulator rfl _, wordTerm?_word hn false false⟩
    · exact ⟨hvalue, wordTerm?_word hn false true⟩
    · exact ⟨hvalue, wordTerm?_word hn false true⟩
    · exact ⟨hvalue, wordTerm?_word hn true true⟩
  | @symbol shape name hshape hname hother =>
    have hvalue := valueText_symbol hname
    have hbyte := byteTerm?_symbol hname
    have hword (loose : Bool) := wordTerm?_symbol hname loose true
    have himmediate : immediateTerm? name.toList = some (.symbol name) := by
      refine (immediateTerm?_eq_byteTerm? fun c hc => ?_).trans hbyte
      have hpart := isSymbolPart_of_mem hname (List.mem_of_mem_head? hc)
      constructor <;> rintro rfl <;> exact absurd hpart (by decide)
    simp only [namedShapes, List.mem_cons, List.not_mem_nil, or_false] at hshape
    rcases hshape with rfl | rfl | rfl | rfl | rfl | rfl | rfl
    · exact ⟨hvalue, hother rfl, wordTerm?_symbol hname false false, hbyte⟩
    · exact ⟨hvalue, himmediate⟩
    · exact ⟨hvalue, hbyte⟩
    · exact ⟨hvalue, hbyte⟩
    · exact ⟨hvalue, hword true⟩
    · exact ⟨hvalue, hword false⟩
    · exact ⟨hvalue, hword false⟩
  | @half half name hname => exact immediateTerm?_half half hname

/-- The number in a term, without its sign; a name has none. -/
def Term.magnitude : Term → Nat
  | .number n | .minus n => n
  | .symbol _ | .half _ _ => 0

def Term.isMinus : Term → Bool
  | .minus _ => true
  | _ => false

def Term.half? : Term → Option Half
  | .half part _ => some part
  | .number _ | .minus _ | .symbol _ => none

structure Operand.WellFormed (o : Operand) : Prop where
  byte_le : o.shape ∈ signedShapes → o.term.magnitude ≤ 0xFF
  word_le : o.shape ∈ wordShapes → o.term.magnitude ≤ 0xFFFF
  bare : o.shape ∉ signedShapes → o.shape ∉ wordShapes → o.term = .number 0
  symbol : ∀ name, o.symbol? = some name → o.term.magnitude = 0 ∧ o.term.isMinus = false
  minus : o.term.isMinus = true → o.shape ∈ signedShapes
  half : ∀ half, o.term.half? = some half → o.shape = .fixed .immediate ∧ o.symbol?.isSome = true
  unnamed : o.shape ∈ [.fixed .absolute, .fixed .zeroPageX, .fixed .zeroPageY] → o.symbol? = none

theorem Term.IsByte.plain (ht : t.IsByte) (shape : Shape) :
    t.magnitude ≤ 0xFF ∧ t.half? = none ∧ (⟨shape, t⟩ : Operand).symbol? = none := by
  cases t with
  | number n => exact ⟨ht, rfl, rfl⟩
  | minus n => exact ⟨ht, rfl, rfl⟩
  | symbol name => exact ht.elim
  | half half name => exact ht.elim

theorem Operand.Readable.wellFormed (h : o.Readable) : o.WellFormed := by
  cases h with
  | implied => constructor <;> simp [Operand.implied, signedShapes, wordShapes, Term.isMinus,
      Operand.symbol?, Term.half?]
  | accumulator => constructor <;> simp [signedShapes, wordShapes, Term.isMinus, Operand.symbol?,
      Term.half?]
  | @byte shape t hshape ht =>
    obtain ⟨hle, hhalf, hsymbol⟩ := ht.plain shape
    exact {
      byte_le := fun _ => hle
      word_le := fun _ => hle.trans (by decide)
      bare := fun hother => absurd hshape hother
      symbol := by simp [hsymbol]
      minus := fun _ => hshape
      half := by simp [hhalf]
      unnamed := fun _ => hsymbol }
  | @word shape n hshape hn =>
    have hdisjoint : ∀ shape ∈ wordShapes, shape ∉ signedShapes := by decide
    exact {
      byte_le := fun hbyte => absurd hbyte (hdisjoint shape hshape)
      word_le := fun _ => hn
      bare := fun _ hother => absurd hshape hother
      symbol := by simp [Operand.symbol?]
      minus := by simp [Term.isMinus]
      half := by simp [Term.half?]
      unnamed := fun _ => rfl }
  | @symbol shape name hshape hname hother =>
    have hcovered : ∀ shape ∈ namedShapes, shape ∈ signedShapes ∨ shape ∈ wordShapes := by decide
    have hdisjoint : ∀ shape ∈ namedShapes,
        shape ∉ [Shape.fixed .absolute, .fixed .zeroPageX, .fixed .zeroPageY] := by decide
    exact {
      byte_le := fun _ => Nat.zero_le _
      word_le := fun _ => Nat.zero_le _
      bare := fun hbyte hword => absurd (hcovered shape hshape) (not_or.mpr ⟨hbyte, hword⟩)
      symbol := fun _ _ => ⟨rfl, rfl⟩
      minus := by simp [Term.isMinus]
      half := by simp [Term.half?]
      unnamed := fun hunnamed => absurd hunnamed (hdisjoint shape hshape) }
  | @half half name hname =>
    exact {
      byte_le := fun _ => Nat.zero_le _
      word_le := fun _ => Nat.zero_le _
      bare := fun hbyte => absurd (by simp [signedShapes]) hbyte
      symbol := fun _ _ => ⟨rfl, rfl⟩
      minus := by simp [Term.isMinus]
      half := fun _ _ => ⟨rfl, rfl⟩
      unnamed := by simp }

/-- An operand that is read is well formed, and it is read again from its canonical text, with
blanks around its punctuation or without. -/
theorem Operand.text_reads_back {text : List Char} {o : Operand}
    (h : Operand.read? text = .ok (some o)) :
    o.WellFormed ∧ Operand.read? o.text = .ok (some o) ∧
      ∀ written, Spaced o.tokens written → Operand.read? written = .ok (some o) := by
  have hreadable := Operand.readable_of_read? h
  obtain ⟨hvalue, hreads⟩ := hreadable.reads
  have hwritten : ∀ written, Spaced o.tokens written → Operand.read? written = .ok (some o) :=
    fun written hspaced => hreads.read?_spaced hvalue hspaced
  have hplain : Spaced o.tokens o.text := by
    simpa [Operand.text] using spaced_flatMap blanks_nil o.tokens
  exact ⟨hreadable.wellFormed, hwritten o.text hplain, hwritten⟩

/-- A binary number in parentheses before an index register. -/
theorem spacedPointer_canonical :
    Operand.read? "(%101 ),y".toList = .ok (some ⟨.fixed .indirectIndexed, .number 5⟩) ∧
    (⟨.fixed .indirectIndexed, .number 5⟩ : Operand).WellFormed ∧
    Operand.read? "($05),Y".toList = .ok (some ⟨.fixed .indirectIndexed, .number 5⟩) ∧
    Operand.read? "( $05 ) , Y".toList = .ok (some ⟨.fixed .indirectIndexed, .number 5⟩) := by
  have hread : Operand.read? "(%101 ),y".toList =
      .ok (some ⟨.fixed .indirectIndexed, .number 5⟩) := eq_ok_of_toOption (by decide +kernel)
  obtain ⟨hformed, htext, hspaced⟩ := Operand.text_reads_back hread
  have hblank : ∀ b ∈ [' '], isBlank b = true := by simp [isBlank]
  have hnone : ∀ b ∈ ([] : List Char), isBlank b = true := by simp
  refine ⟨hread, hformed, htext, hspaced _ ?_⟩
  exact .cons hnone (.cons hblank (.cons hblank (.cons hblank (.cons hblank (.nil hnone)))))

end Toolchain6502.Assembly
