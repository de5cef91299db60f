import Toolchain6502.Proofs.Assembly.DefinedNames
import Toolchain6502.Proofs.Assembly.SpelledNumbers
import Toolchain6502.Proofs.Assembly.SymbolWords

namespace Toolchain6502.Assembly

open Text Cpu

variable {text : List Char} {o : Operand} {v : Int} {m : Mnemonic}

def isIndex (c : Char) : Bool := c.toUpper = 'X' || c.toUpper = 'Y'

/-- A value text inside the punctuation of an operand. -/
inductive Punctuated (value : List Char) : List Char → Prop
  | bare : Punctuated value value
  | sharp {blanks : List Char} (hblanks : ∀ b ∈ blanks, isBlank b = true) :
      Punctuated value ('#' :: (blanks ++ value))
  | parens {front inner back : List Char} (hfront : ∀ b ∈ front, isBlank b = true)
      (hback : ∀ b ∈ back, isBlank b = true) (h : Punctuated value inner) :
      Punctuated value ('(' :: (front ++ inner ++ back ++ [')']))
  | indexed {inner front back : List Char} {register : Char}
      (hfront : ∀ b ∈ front, isBlank b = true) (hback : ∀ b ∈ back, isBlank b = true)
      (hregister : isIndex register = true) (h : Punctuated value inner) :
      Punctuated value (inner ++ front ++ ',' :: (back ++ [register]))

def EndsIndexed (text : List Char) : Prop := ',' ∈ text ∧ ∃ c ∈ text.getLast?, isIndex c = true

/-- A text without punctuation of its own. -/
structure Solid (text : List Char) : Prop where
  ne : text ≠ []
  trimmed : Trimmed text
  head : ∀ c ∈ text.head?, c ≠ '#' ∧ c ≠ '('
  index : ¬EndsIndexed text

theorem isBlank_of_isIndex {c : Char} (h : isIndex c = true) : isBlank c = false := by
  rw [Bool.eq_false_iff]
  intro hblank
  -- a blank is no small letter
  have hupper : c.toUpper = c := by
    have halpha := isAlpha_of_isBlank hblank
    rw [Bool.eq_false_iff, Ne, isAlpha_iff] at halpha
    unfold Char.toUpper
    split_ifs with hsmall
    · exact absurd (.inr hsmall) halpha
    · rfl
  rw [isIndex, hupper, Bool.or_eq_true, decide_eq_true_eq, decide_eq_true_eq] at h
  rcases h with rfl | rfl <;> exact absurd hblank (by decide)

theorem getLast?_cons_concat (a : α) (xs : List α) (b : α) : (a :: (xs ++ [b])).getLast? = some b :=
  List.getLast?_concat (l := a :: xs)

section

variable {value text inner front back : List Char}

theorem endsIndexed_indexed {register : Char} (hregister : isIndex register = true) :
    EndsIndexed (inner ++ front ++ ',' :: (back ++ [register])) :=
  ⟨by simp, register, by simp [getLast?_cons_concat], hregister⟩

theorem not_endsIndexed_parens : ¬EndsIndexed ('(' :: (inner ++ [')'])) := by
  rintro ⟨-, c, hc, hindex⟩
  obtain rfl : ')' = c := by simpa [getLast?_cons_concat] using hc
  exact absurd hindex (by decide)

theorem not_endsIndexed_sharp (hvalue : Solid value) (hfront : ∀ b ∈ front, isBlank b = true) :
    ¬EndsIndexed ('#' :: (front ++ value)) := by
  rintro ⟨hcomma, c, hc, hindex⟩
  have hlast : ('#' :: (front ++ value)).getLast? = value.getLast? := by
    rw [← List.cons_append, List.getLast?_append_of_ne_nil _ hvalue.ne]
  rw [hlast] at hc
  refine hvalue.index ⟨?_, c, hc, hindex⟩
  simp only [List.mem_cons, List.mem_append] at hcomma
  rcases hcomma with h | h | h
  · simp at h
  · exact absurd (hfront ',' h) (by decide)
  · exact h

theorem Punctuated.trimmed (hvalue : Solid value) (h : Punctuated value text) :
    text ≠ [] ∧ Trimmed text := by
  induction h with
  | bare => exact ⟨hvalue.ne, hvalue.trimmed⟩
  | sharp hblanks =>
    refine ⟨by simp, by simp [isBlank], ?_⟩
    intro c hc
    rw [← List.cons_append, List.getLast?_append_of_ne_nil _ hvalue.ne] at hc
    exact hvalue.trimmed.last c hc
  | parens =>
    refine ⟨by simp, by simp [isBlank], ?_⟩
    intro c hc
    rw [getLast?_cons_concat] at hc
    obtain rfl := Option.some.inj hc
    rfl
  | indexed hfront hback hregister h ih =>
    refine ⟨by simp, ?_, by simpa [getLast?_cons_concat] using isBlank_of_isIndex hregister⟩
    intro c hc
    rw [List.append_assoc, List.head?_append_of_ne_nil _ ih.1] at hc
    exact ih.2.first c hc

end

/-- The punctuation of a text can be taken off in one way only. -/
theorem Punctuated.unique {v w : List Char} (hv : Solid v) (hw : Solid w) (h : Punctuated v text)
    (h' : Punctuated w text) : v = w := by
  induction h with
  | bare =>
    cases h' with
    | bare => rfl
    | sharp => exact absurd rfl (hv.head '#' rfl).1
    | parens => exact absurd rfl (hv.head '(' rfl).2
    | indexed _ _ hregister => exact absurd (endsIndexed_indexed hregister) hv.index
  | @sharp blanks hblanks =>
    generalize htext : '#' :: (blanks ++ v) = text at h'
    cases h' with
    | bare => exact absurd rfl (hw.head '#' (htext ▸ rfl)).1
    | sharp hblanks' =>
      have hrest := congrArg trimLeft (List.cons.inj htext).2
      rwa [trimLeft_append hblanks hv.trimmed.first, trimLeft_append hblanks' hw.trimmed.first]
        at hrest
    | parens => simp at htext
    | indexed _ _ hregister =>
      exact absurd (htext ▸ endsIndexed_indexed hregister) (not_endsIndexed_sharp hv hblanks)
  | @parens front inner back hfront hback h ih =>
    generalize htext : '(' :: (front ++ inner ++ back ++ [')']) = text at h'
    cases h' with
    | bare => exact absurd rfl (hw.head '(' (htext ▸ rfl)).2
    | sharp => simp at htext
    | parens hfront' hback' h' =>
      have hrest := congrArg trim (List.append_cancel_right (List.cons.inj htext).2)
      obtain ⟨hne, htrimmed⟩ := h.trimmed hv
      obtain ⟨hne', htrimmed'⟩ := h'.trimmed hw
      rw [htrimmed.trim_append hne hfront hback, htrimmed'.trim_append hne' hfront' hback'] at hrest
      exact ih (hrest ▸ h')
    | indexed _ _ hregister =>
      exact absurd (htext ▸ endsIndexed_indexed hregister) not_endsIndexed_parens
  | @indexed inner front back register hfront hback hregister h ih =>
    generalize htext : inner ++ front ++ ',' :: (back ++ [register]) = text at h'
    have hindexed : EndsIndexed text := htext ▸ endsIndexed_indexed hregister
    cases h' with
    | bare => exact absurd hindexed hw.index
    | sharp hblanks => exact absurd hindexed (not_endsIndexed_sharp hw hblanks)
    | parens => exact absurd hindexed not_endsIndexed_parens
    | @indexed inner' _ _ register' hfront' hback' _ h' =>
      have hbefore := congrArg (beforeIndex? register.toUpper) htext
      rw [beforeIndex?_of_blanks _ (h.trimmed hv).2.last hfront hback,
        beforeIndex?_of_blanks _ (h'.trimmed hw).2.last hfront' hback', if_pos rfl] at hbefore
      split_ifs at hbefore
      exact ih (Option.some.inj hbefore ▸ h')

/-- The characters of numbers that are not quoted, of symbols, and of the signs that select a
byte. -/
def isValuePart (c : Char) : Bool :=
  isSymbolPart c || isDigit c || c = '$' || c = '%' || c = '-' || c = '<' || c = '>'

theorem isBlank_of_isValuePart {c : Char} (h : isValuePart c = true) : isBlank c = false := by
  simp only [isValuePart, Bool.or_eq_true, decide_eq_true_eq] at h
  rcases h with (((((h | h) | rfl) | rfl) | rfl) | rfl) | rfl
  · exact isBlank_of_isInk (isInk_of_isSymbolPart h)
  · exact isBlank_of_isDigit h
  all_goals rfl

theorem solid_of_parts (hne : text ≠ []) (h : ∀ c ∈ text, isValuePart c = true) : Solid text := by
  refine ⟨hne, ⟨?_, ?_⟩, ?_, ?_⟩
  · exact fun c hc => isBlank_of_isValuePart (h c (List.mem_of_mem_head? hc))
  · exact fun c hc => isBlank_of_isValuePart (h c (List.mem_of_getLast? hc))
  · intro c hc
    constructor <;> rintro rfl <;> exact absurd (h _ (List.mem_of_mem_head? hc)) (by decide)
  · exact fun hindexed => absurd (h _ hindexed.1) (by decide)

/-- A literal that is not quoted has no other characters. -/
theorem Literal.Written.parts {l : Literal} (h : l.Written text) :
    text ≠ [] ∧ ((∀ c ∈ text, isValuePart c = true) ∨
      ∃ inner, '\'' ∉ inner ∧ text = '\'' :: (inner ++ ['\''])) := by
  have hsymbol {c : Char} (hc : isSymbolPart c = true) : isValuePart c = true := by
    simp [isValuePart, hc]
  have hdigit {c : Char} (hc : isDigit c = true) : isValuePart c = true := by
    simp [isValuePart, hc]
  have hmarked (marks : List (List Char)) {mark ds : List Char}
      (hmarks : marks.all (·.all isValuePart) = true) (hmark : mark ∈ marks)
      (hds : ∀ c ∈ ds, isValuePart c = true) : ∀ c ∈ mark ++ ds, isValuePart c = true := by
    intro c hc
    rcases List.mem_append.mp hc with hc | hc
    · exact List.all_eq_true.mp (List.all_eq_true.mp hmarks mark hmark) c hc
    · exact hds c hc
  cases h with
  | hex hmark hne hds =>
    exact ⟨by simp [hne], .inl (hmarked hexMarks (by decide) hmark fun c hc =>
      hsymbol (isSymbolPart_of_isHexDigit (hds c hc)))⟩
  | binary hmark hne hds =>
    refine ⟨by simp [hne], .inl (hmarked binaryMarks (by decide) hmark fun c hc => ?_)⟩
    have hbit := hds c hc
    simp only [isBinaryDigit, Bool.or_eq_true, decide_eq_true_eq] at hbit
    rcases hbit with rfl | rfl <;> decide
  | decimal hne hds => exact ⟨hne, .inl fun c hc => hdigit (isDigit_of_ascii (hds c hc))⟩
  | minus hne hds =>
    refine ⟨by simp, .inl (List.forall_mem_cons.mpr ⟨by decide, fun c hc => ?_⟩)⟩
    exact hdigit (isDigit_of_ascii (hds c hc))
  | digits hrun => exact ⟨hrun.1, .inl fun c hc => hdigit (hrun.2 c hc)⟩
  | @quoted c rest hc hrest =>
    exact ⟨by simp, .inr ⟨c :: rest, by simp [hrest, Ne.symm hc], rfl⟩⟩
  | symbol hname =>
    refine ⟨?_, .inl fun c hc => hsymbol (isSymbolPart_of_mem hname hc)⟩
    rintro rfl
    simp [isSymbol] at hname

theorem Literal.Written.solid {l : Literal} (h : l.Written text) : Solid text := by
  obtain ⟨hne, hparts | ⟨inner, -, rfl⟩⟩ := h.parts
  · exact solid_of_parts hne hparts
  · have hlast := getLast?_cons_concat '\'' inner '\''
    refine ⟨hne, ⟨by simp [isBlank], ?_⟩, by simp, ?_⟩
    · rw [hlast]
      simp [isBlank]
    · rintro ⟨-, d, hd, hindex⟩
      rw [hlast] at hd
      obtain rfl := Option.some.inj hd
      exact absurd hindex (by decide)

/-- The bytes that a form has for its value if that is a number. -/
def Shape.width : Shape → Nat
  | .direct => 1
  | .fixed mode => mode.operandSize

def Shape.Takes (shape : Shape) (v : Int) : Prop :=
  shape.width = 1 ∧ -0xFF ≤ v ∧ v ≤ 0xFF ∨ shape.width = 2 ∧ 0 ≤ v ∧ v ≤ 0xFFFF

/-- What an operand says of the value text that it was read from: it holds the number that the text
spells, or the text spells none. -/
def Operand.Holds (o : Operand) (value : List Char) : Prop :=
  (∃ v, Spelled value v ∧ o.term.number? = some v ∧ o.shape.Takes v) ∨
    (∀ v, ¬Spelled value v) ∧ (o.symbol?.isSome ∨ o.shape = .fixed .accumulator)

section

variable {shape : Shape} {body : List Char} {t : Term}

theorem holds_symbol (h : isSymbol body = true) :
    (⟨shape, .symbol (String.ofList body)⟩ : Operand).Holds body :=
  .inr ⟨fun v hv => by simp [hv.not_symbol] at h, .inl rfl⟩

theorem holds_of_byteTerm? (hwidth : shape.width = 1) (h : byteTerm? body = some t) :
    Solid body ∧ (⟨shape, t⟩ : Operand).Holds body := by
  constructor
  · obtain ⟨l, hread, -⟩ := Option.bind_eq_some_iff.mp h
    exact (written_of_read? hread).solid
  · rcases byteTerm?_eq_some h with ⟨hsymbol, rfl⟩ | ⟨v, hv, hnumber, hrange⟩
    · exact holds_symbol hsymbol
    · exact .inl ⟨v, hv, hnumber, .inl ⟨hwidth, hrange⟩⟩

theorem holds_of_wordTerm? {loose named : Bool} (hwidth : shape.width = 2)
    (h : wordTerm? loose named body = .ok (some t)) :
    Solid body ∧ (⟨shape, t⟩ : Operand).Holds body := by
  constructor
  · unfold wordTerm? at h
    split at h
    · exact (written_of_read? ‹_›).solid
    · simp at h
  · rcases wordTerm?_eq_some h with ⟨hsymbol, rfl⟩ | ⟨v, hv, hnumber, hrange⟩
    · exact holds_symbol hsymbol
    · exact .inl ⟨v, hv, hnumber, .inr ⟨hwidth, hrange⟩⟩

theorem holds_half {sign : Char} (hsign : sign = '<' ∨ sign = '>') {half : Half}
    (h : isSymbol body = true) :
    Solid (sign :: body) ∧
      (⟨shape, .half half (String.ofList body)⟩ : Operand).Holds (sign :: body) := by
  constructor
  · refine solid_of_parts (by simp) (List.forall_mem_cons.mpr ⟨?_, fun c hc => ?_⟩)
    · rcases hsign with rfl | rfl <;> decide
    · simp [isValuePart, isSymbolPart_of_mem h hc]
  · refine .inr ⟨fun v hv => ?_, .inl rfl⟩
    obtain ⟨l, hread, -⟩ := hv.read?
    have hplain : Literal.read? (sign :: body) = plainLiteral? (sign :: body) := by
      rcases hsign with rfl | rfl <;> rfl
    have hother : isSymbolStart sign = false ∧ sign.isDigit = false ∧ isDigit sign = false := by
      rcases hsign with rfl | rfl <;> decide
    simp [hplain, plainLiteral?, isSymbol, hother] at hread

theorem holds_of_immediateTerm? (h : immediateTerm? body = some t) :
    Solid body ∧ (⟨.fixed .immediate, t⟩ : Operand).Holds body := by
  unfold immediateTerm? at h
  split at h
  · split_ifs at h with hsymbol
    exact Option.some.inj h ▸ holds_half (.inl rfl) hsymbol
  · split_ifs at h with hsymbol
    exact Option.some.inj h ▸ holds_half (.inr rfl) hsymbol
  · exact holds_of_byteTerm? rfl h

end

/-- A sharp sign stands at the head of a trimmed text, so blanks follow it only in front of its
value. -/
theorem punctuated_sharp {rest : List Char} (htext : Trimmed ('#' :: rest)) :
    Punctuated (trim rest) ('#' :: rest) := by
  obtain ⟨front, back, hfront, hback, hrest⟩ := exists_trim_eq rest
  have hnone : back = [] := by
    by_contra hne
    have hlast : ('#' :: rest).getLast? = back.getLast? := by
      rw [hrest, ← List.cons_append, List.getLast?_append_of_ne_nil _ hne]
    obtain ⟨c, hc⟩ := Option.isSome_iff_exists.mp (List.getLast?_isSome.mpr hne)
    have hblank := hback c (List.mem_of_getLast? hc)
    simp [htext.last c (hlast.trans hc)] at hblank
  rw [hnone, List.append_nil] at hrest
  conv => arg 2; rw [hrest]
  exact .sharp hfront

/-- The operands that a form reads hold what is written in the punctuation. -/
def Form.Faithful (f : Form) : Prop :=
  ∀ text body t, Trimmed text → f.body? text = some body → f.term? body = .ok (some t) →
    ∃ value, Punctuated value text ∧ Solid value ∧ (⟨f.shape, t⟩ : Operand).Holds value

def Unwraps (body? : List Char → Option (List Char)) : Prop :=
  ∀ text body, body? text = some body → ∀ value, Punctuated value body → Punctuated value text

theorem unwraps_insideParens? : Unwraps insideParens? := by
  intro text body h value hbody
  obtain ⟨inner, rfl, rfl⟩ := insideParens?_eq_some.mp h
  obtain ⟨front, back, hfront, hback, hinner⟩ := exists_trim_eq inner
  rw [hinner]
  exact .parens hfront hback hbody

theorem unwraps_beforeIndex? {register : Char} (hregister : register = 'X' ∨ register = 'Y') :
    Unwraps (beforeIndex? register) := by
  intro text body h value hbody
  obtain ⟨front, back, c, rfl, rfl, hfront, hback⟩ := beforeIndex?_eq_some h
  exact .indexed hfront hback (by simpa [isIndex] using hregister) hbody

theorem Unwraps.bind {outer? inner? : List Char → Option (List Char)} (houter : Unwraps outer?)
    (hinner : Unwraps inner?) : Unwraps fun text => (outer? text).bind inner? := by
  intro text body h value hbody
  obtain ⟨between, hbetween, h⟩ := Option.bind_eq_some_iff.mp h
  exact houter text between hbetween value (hinner between body h value hbody)

theorem byteForm_faithful {mode : Mode} (hmode : mode.operandSize = 1)
    {body? : List Char → Option (List Char)} (hbody? : Unwraps body?) :
    (byteForm mode body?).Faithful := by
  intro text body t _ hbody hterm
  obtain ⟨own, hown, hline⟩ := Option.bind_eq_some_iff.mp hbody
  obtain rfl := oneLine?_eq_some hline
  exact ⟨body, hbody? text body hown body .bare, holds_of_byteTerm? hmode (Except.ok.inj hterm)⟩

theorem wordForm_faithful {mode : Mode} (hmode : mode.operandSize = 2) {loose : Bool}
    {body? : List Char → Option (List Char)} (hbody? : Unwraps body?) :
    (wordForm mode loose body?).Faithful := by
  intro text body t _ hbody hterm
  obtain ⟨own, hown, hline⟩ := Option.bind_eq_some_iff.mp hbody
  obtain rfl := oneLine?_eq_some hline
  exact ⟨body, hbody? text body hown body .bare, holds_of_wordTerm? hmode hterm⟩

theorem accumulatorForm_faithful : accumulatorForm.Faithful := by
  intro text body t _ hbody _
  simp only [accumulatorForm, Bool.or_eq_true, decide_eq_true_eq] at hbody
  split_ifs at hbody with hname
  have hsymbol : isSymbol text = true := by rcases hname with rfl | rfl <;> decide
  exact ⟨text, .bare, (Literal.Written.symbol hsymbol).solid,
    .inr ⟨fun v hv => by simp [hv.not_symbol] at hsymbol, .inr rfl⟩⟩

theorem immediateForm_faithful : immediateForm.Faithful := by
  intro text body t htext hbody hterm
  simp only [immediateForm] at hbody
  split at hbody
  · obtain rfl := Option.some.inj hbody
    exact ⟨_, punctuated_sharp htext, holds_of_immediateTerm? (Except.ok.inj hterm)⟩
  · simp at hbody

theorem absoluteForm_faithful : absoluteForm.Faithful := by
  intro text body t _ hbody hterm
  obtain rfl : text = body := Option.some.inj hbody
  exact ⟨text, .bare, holds_of_wordTerm? rfl hterm⟩

theorem directForm_faithful : directForm.Faithful := by
  intro text body t _ hbody hterm
  obtain rfl : text = body := Option.some.inj hbody
  exact ⟨text, .bare, holds_of_byteTerm? rfl (Except.ok.inj hterm)⟩

theorem forms_faithful : ∀ f ∈ forms, f.Faithful := by
  have hX := unwraps_beforeIndex? (.inl rfl : 'X' = 'X' ∨ 'X' = 'Y')
  have hY := unwraps_beforeIndex? (.inr rfl : 'Y' = 'X' ∨ 'Y' = 'Y')
  exact forall_forms accumulatorForm_faithful immediateForm_faithful
    (byteForm_faithful rfl (hY.bind unwraps_insideParens?))
    (byteForm_faithful rfl (unwraps_insideParens?.bind hX))
    (wordForm_faithful rfl unwraps_insideParens?) (wordForm_faithful rfl hX)
    (wordForm_faithful rfl hY) absoluteForm_faithful (byteForm_faithful rfl hX)
    (byteForm_faithful rfl hY) directForm_faithful

theorem firstForm?_faithful (htext : Trimmed text) (h : firstForm? text forms = .ok (some o)) :
    ∃ value, Punctuated value text ∧ Solid value ∧ o.Holds value := by
  obtain ⟨f, hf, hread⟩ := firstForm?_eq_some h
  obtain ⟨body, t, hbody, hterm, rfl⟩ := Form.read?_eq_some hread
  exact forms_faithful f hf text body t htext hbody hterm

theorem Spelled.solid (h : Spelled text v) : Solid text := by
  obtain ⟨l, hread, -⟩ := h.read?
  exact (written_of_read? hread).solid

/-- An operand holds the number that is written in its text. -/
theorem number_of_firstForm? {value : List Char} (htext : Punctuated value text)
    (hvalue : Spelled value v) (h : firstForm? text forms = .ok (some o)) :
    o.term.number? = some v ∧ o.shape.Takes v := by
  obtain ⟨own, hown, hsolid, hholds⟩ := firstForm?_faithful (htext.trimmed hvalue.solid).2 h
  obtain rfl := htext.unique hvalue.solid hsolid hown
  rcases hholds with ⟨w, hw, hnumber⟩ | ⟨hnone, -⟩
  · exact hvalue.unique hw ▸ hnumber
  · exact absurd hvalue (hnone v)

inductive NumberLine (line : String) (m : Mnemonic) (v : Int) : Prop
  | intro {letters operand value : List Char} {b : Char}
      (htext : statementText line.toList = letters ++ b :: operand)
      (hletters : ∀ c ∈ letters, c.isAlpha = true)
      (hmnemonic : Mnemonic.ofName? (String.ofList (letters.map Char.toUpper)) = some m)
      (hblank : isBlank b = true) (hoperand : Punctuated value (trim operand))
      (hvalue : Spelled value v)

theorem numberLine_immediate {line : String} (letters value : List Char)
    (htext : statementText line.toList = letters ++ ' ' :: '#' :: value)
    (hletters : letters.all Char.isAlpha = true)
    (hmnemonic : Mnemonic.ofName? (String.ofList (letters.map Char.toUpper)) = some m)
    (hvalue : Spelled value v) : NumberLine line m v := by
  have hnone : ∀ b ∈ ([] : List Char), isBlank b = true := by simp
  have hoperand : Punctuated value ('#' :: value) := .sharp hnone
  have htrim : trim ('#' :: value) = '#' :: value := (hoperand.trimmed hvalue.solid).2.trim_eq
  exact .intro htext (List.all_eq_true.mp hletters) hmnemonic rfl (htrim.symm ▸ hoperand) hvalue

theorem readOperandAfter_eq_ok {rest : List Char} :
    readOperandAfter rest = .ok o ↔ (rest = [] ∧ o = .implied) ∨
      ∃ b operand, rest = b :: operand ∧ isBlank b = true ∧
        Operand.read? (trim operand) = .ok (some o) := by
  cases rest with
  | nil => simp [readOperandAfter, @eq_comm _ o]
  | cons b operand =>
    cases hblank : isBlank b with
    | false => simp [readOperandAfter, hblank]
    | true =>
      have hread : Operand.read? (b :: operand) = Operand.read? (trim operand) := by
        have htrim : trim (b :: operand) = trim operand := by simp [trim, trimLeft, hblank]
        rw [Operand.read?, htrim, Operand.read?, trim_trim]
      simp [readOperandAfter, hblank, readOperand, valueOr_eq_ok, hread]

theorem readInstruction_letters {letters operand : List Char} {b : Char}
    (hletters : ∀ c ∈ letters, c.isAlpha = true)
    (hmnemonic : Mnemonic.ofName? (String.ofList (letters.map Char.toUpper)) = some m)
    (hblank : isBlank b = true) :
    readInstruction (letters ++ b :: operand) =
      (readOperandAfter (b :: operand)).bind fun o => .ok (m, o) := by
  have hspan : (letters ++ b :: operand).span Char.isAlpha = (letters, b :: operand) :=
    span_append hletters (by simpa using isAlpha_of_isBlank hblank)
  have hsome : (Mnemonic.ofName? (String.ofList (letters.map Char.toUpper))).isSome = true := by
    simp [hmnemonic]
  obtain ⟨c, cs, rfl⟩ := List.exists_cons_of_ne_nil (letters_ne_nil hsome)
  have hc : isBlank c = false := by
    rw [Bool.eq_false_iff]
    intro hc
    simpa [hletters c List.mem_cons_self] using isAlpha_of_isBlank hc
  have hleft : trimLeft (c :: cs ++ b :: operand) = c :: cs ++ b :: operand :=
    trimLeft_eq_self (by simpa using hc)
  unfold readInstruction
  rw [hleft, hspan]
  simp only [hmnemonic]
  rfl

theorem readInstruction_eq_ok (htext : Trimmed text) (h : readInstruction text = .ok (m, o)) :
    ∃ letters rest, text = letters ++ rest ∧ (∀ c ∈ letters, c.isAlpha = true) ∧
      Mnemonic.ofName? (String.ofList (letters.map Char.toUpper)) = some m ∧
      readOperandAfter rest = .ok o := by
  unfold readInstruction at h
  rw [trimLeft_eq_self htext.first, List.span_eq_takeWhile_dropWhile] at h
  split at h
  · simp at h
  · rename_i letters rest _ hspan
    obtain ⟨hletters, hrest⟩ := Prod.mk.inj hspan
    split at h
    · simp at h
    · rename_i mnemonic hmnemonic
      obtain ⟨operand, hoperand, h⟩ := bind_eq_ok.mp h
      obtain ⟨rfl, rfl⟩ := Prod.mk.inj (Except.ok.inj h)
      refine ⟨letters, rest, ?_, fun c hc => ?_, hmnemonic, hoperand⟩
      · rw [← hletters, ← hrest, List.takeWhile_append_dropWhile]
      · rw [← hletters] at hc
        exact List.mem_takeWhile_imp hc

theorem Operand.read?_of_trimmed (hne : text ≠ []) (htext : Trimmed text) :
    Operand.read? text = firstForm? text forms := by
  rw [Operand.read?, htext.trim_eq, if_neg (by simpa using hne)]

section

variable {line : String} {m : Mnemonic} {o : Operand} {v : Int}

theorem NumberLine.number {m' : Mnemonic} (h : NumberLine line m v)
    (hread : readInstruction (statementText line.toList) = .ok (m', o)) :
    m' = m ∧ o.term.number? = some v ∧ o.shape.Takes v := by
  obtain ⟨htext, hletters, hmnemonic, hblank, hoperand, hvalue⟩ := h
  rw [htext, readInstruction_letters hletters hmnemonic hblank] at hread
  obtain ⟨o', ho', hread⟩ := bind_eq_ok.mp hread
  obtain ⟨rfl, rfl⟩ := Prod.mk.inj (Except.ok.inj hread)
  refine ⟨rfl, ?_⟩
  rcases readOperandAfter_eq_ok.mp ho' with ⟨hnil, -⟩ | ⟨_, operand, hcons, -, hread⟩
  · simp at hnil
  · obtain ⟨-, rfl⟩ := List.cons.inj hcons
    obtain ⟨hne, htrimmed⟩ := hoperand.trimmed hvalue.solid
    rw [Operand.read?_of_trimmed hne htrimmed] at hread
    exact number_of_firstForm? hoperand hvalue hread

theorem exists_numberLine (hread : readInstruction (statementText line.toList) = .ok (m, o))
    (hnone : o.symbol? = none) (hwidth : 0 < o.shape.width) : ∃ v, NumberLine line m v := by
  obtain ⟨letters, rest, htext, hletters, hmnemonic, hrest⟩ :=
    readInstruction_eq_ok (trimmed_statementText _) hread
  have himplied : o ≠ .implied := by
    rintro rfl
    simp [Operand.implied, Shape.width, Mode.operandSize] at hwidth
  rcases readOperandAfter_eq_ok.mp hrest with ⟨-, ho⟩ | ⟨b, operand, rfl, hblank, hread⟩
  · exact absurd ho himplied
  · unfold Operand.read? at hread
    split_ifs at hread with hempty
    · exact absurd (Option.some.inj (Except.ok.inj hread)).symm himplied
    · rw [trim_trim] at hread
      obtain ⟨value, hvalue, -, hholds⟩ := firstForm?_faithful (trimmed_trim _) hread
      rcases hholds with ⟨v, hv, -⟩ | ⟨-, hsymbol | haccumulator⟩
      · exact ⟨v, .intro htext hletters hmnemonic hblank hvalue hv⟩
      · simp [hnone] at hsymbol
      · simp [haccumulator, Shape.width, Mode.operandSize] at hwidth

/-- A number decides the width of its operand alone, whatever the mnemonic. -/
theorem operandSize_encodingMode (m : Mnemonic) (h : o.symbol? = none) :
    (encodingMode m o).operandSize = o.shape.width := by
  unfold encodingMode Shape.width
  cases hshape : o.shape with
  | direct =>
    rcases directMode_cases m o.symbol?.isSome with hmode | ⟨hnamed, -⟩ | hmode
    · simp [hmode, Mode.operandSize]
    · simp [h] at hnamed
    · simp [hmode, Mode.operandSize]
  | fixed mode =>
    cases mode with
    | implied =>
      simp only [impliedMode]
      split_ifs <;> rfl
    | _ => simp [h, Mode.operandSize]

theorem symbol?_eq_none (h : o.term.number? = some v) : o.symbol? = none := by
  unfold Operand.symbol?
  cases hterm : o.term <;> simp_all [Term.number?]

theorem exists_numberLine_iff (hread : readInstruction (statementText line.toList) = .ok (m, o)) :
    (∃ v, NumberLine line m v) ↔ o.symbol? = none ∧ 0 < (encodingMode m o).operandSize := by
  constructor
  · rintro ⟨v, h⟩
    obtain ⟨-, hnumber, htakes⟩ := h.number hread
    have hnone := symbol?_eq_none hnumber
    rw [operandSize_encodingMode m hnone]
    unfold Shape.Takes at htakes
    exact ⟨hnone, by omega⟩
  · rintro ⟨hnone, hsize⟩
    rw [operandSize_encodingMode m hnone] at hsize
    exact exists_numberLine hread hnone hsize

end

section

variable {file text : String} {ss : List Statement}

theorem readInstruction_of_mem (h : readSource file text = .ok ss) {s : Statement} (hs : s ∈ ss)
    (hc : s.content = .instruction m o) :
    readInstruction (statementText s.source.toList) = .ok (m, o) := by
  obtain ⟨contents, hcontents, hmem⟩ := exists_contents_of_mem h hs
  rw [hc] at hmem
  rcases statement_of_readContents hcontents hmem with ⟨name, hlabel⟩ | ⟨body, hbody, hmem⟩
  · simp at hlabel
  · rcases readBody_eq_ok hbody hmem with hdirective | ⟨m', o', hread, hsame⟩
    · obtain ⟨name, value, w, -, hconstant⟩ := readDirective_eq_ok hdirective
      simp at hconstant
    · obtain ⟨rfl, rfl⟩ := Content.instruction.inj hsame
      exact hread

theorem exists_readBody {line : List Char} {cs : List Content} (h : readContents line = .ok cs) :
    ∃ body, readBody (statementText line) = .ok body := by
  rw [readContents] at h
  rw [statementText]
  cases hlabel : splitLabel? (trim (stripComment line)) with
  | none =>
    rw [hlabel] at h
    exact ⟨cs, h⟩
  | some label =>
    rw [hlabel] at h
    obtain ⟨body, hbody, -⟩ := bind_eq_ok.mp h
    exact ⟨body, hbody⟩

/-- The instruction of a line with a number has been read with the rest of the source. -/
theorem NumberLine.exists_readInstruction {line : String} (hnumber : NumberLine line m v)
    (h : readSource file text = .ok ss) (hline : line ∈ lines text) :
    ∃ m' o, readInstruction (statementText line.toList) = .ok (m', o) := by
  obtain ⟨cs, hcs⟩ := exists_contents_of_readLinesFrom h hline
  obtain ⟨body, hbody⟩ := exists_readBody hcs
  obtain ⟨htext, hletters, hmnemonic, -, -, -⟩ := hnumber
  have hne := letters_ne_nil (Option.isSome_of_mem hmnemonic)
  obtain ⟨c, rest, rfl⟩ := List.exists_cons_of_ne_nil hne
  have hpoint : c ≠ '.' := by
    rintro rfl
    exact absurd (hletters '.' List.mem_cons_self) (by decide)
  rw [htext, List.cons_append] at hbody ⊢
  rw [readBody_cons hpoint] at hbody
  obtain ⟨⟨m', o⟩, hread, -⟩ := bind_eq_ok.mp hbody
  exact ⟨m', o, hread⟩

end

/-- Bytes that are a number without a sign or in two's complement, the low one first. -/
def Represents (bytes : List UInt8) (v : Int) : Prop :=
  (bytesNumber bytes : Int) = v ∨ (bytesNumber bytes : Int).bmod (0x100 ^ bytes.length) = v

theorem represents_littleEndian_iff {shape : Shape} (h : shape.Takes v) :
    Represents (littleEndian shape.width v) v ↔ -128 ≤ v := by
  have hnumber := bytesNumber_littleEndian shape.width v
  have hlength := littleEndian_length shape.width v
  unfold Represents
  rw [hlength, hnumber]
  unfold Shape.Takes at h
  rcases h with ⟨hwidth, hlow, hhigh⟩ | ⟨hwidth, hlow, hhigh⟩
  · rw [hwidth]
    simp [Int.bmod]
    omega
  · rw [hwidth]
    simp [Int.bmod]
    omega

theorem Statement.Encodes.number {t : Symbols} {address : Nat} {s : Statement}
    (h : s.Encodes t address) (hc : s.content = .instruction m o)
    (hnumber : o.term.number? = some v) :
    ∃ opcode, encoding? m o = some opcode ∧ s.size = opcode.size ∧
      s.bytes t address = opcode.code :: littleEndian o.shape.width v ∧
      opcode.mode.operandSize = o.shape.width ∧ (v < -128 → opcode.mode ≠ .relative) := by
  simp only [Statement.Encodes, hc] at h
  obtain ⟨opcode, hencoding, hencodes⟩ := h
  have hnone := symbol?_eq_none hnumber
  have hwidth : opcode.mode.operandSize = o.shape.width := by
    rw [encoding?_mode hencoding, operandSize_encodingMode m hnone]
  have hcarried : o.carried t (address + opcode.size) opcode.mode = v := by
    simp only [Operand.carried, hnone, Option.isSome_none, Bool.false_eq_true, and_false, if_false]
    cases hterm : o.term <;> simp_all [Term.number?, Term.value]
  refine ⟨opcode, hencoding, by simp [Statement.size, hc, hencoding], ?_, hwidth, ?_⟩
  · simp only [Statement.bytes, hc, hencoding, hcarried, hwidth]
  · intro hlow hrelative
    have hreaches := (hencodes.reaches hrelative).2
    cases hterm : o.term with
    | number n =>
      simp only [hterm, Term.number?, Option.some.injEq] at hnumber
      omega
    | minus n =>
      have := hreaches n hterm
      simp only [hterm, Term.number?, Option.some.injEq] at hnumber
      omega
    | symbol _ => simp [hterm, Term.number?] at hnumber
    | half _ _ => simp [hterm, Term.number?] at hnumber

/-- The number of an operand is emitted as it is written, or as its low byte if it lies below the
signed bytes; numbers that need more bits are refused. -/
theorem Session.number_kept_iff (s : Session) (text : String) :
    (∀ code final, s.assembleText text = (.ok code, final) →
      ∃ ss, readSource mergedName text = .ok ss ∧
        ∀ k st m o, ss[k]? = some st → st.content = .instruction m o →
          ((∃ v, NumberLine st.source m v) ↔
            o.symbol? = none ∧ 0 < (encodingMode m o).operandSize) ∧
          ∀ v, NumberLine st.source m v → ∃ opcode operand, encoding? m o = some opcode ∧
            (code.drop (addressAt 0 ss k)).take opcode.size = opcode.code :: operand ∧
            operand.length = opcode.mode.operandSize ∧
            (Represents operand v ↔ -128 ≤ v) ∧
            (v < -128 → opcode.mode ≠ .relative ∧ operand = [byteOf v])) ∧
    ∀ line ∈ lines text, ∀ m v, NumberLine line m v → v < -0xFF ∨ 0xFFFF < v →
      ∃ e, (s.assembleText text).1 = .error e := by
  constructor
  · intro code final h
    obtain ⟨ss, image, hread, hassemble, rfl, -⟩ := assembleText_eq_ok.mp h
    obtain ⟨-, hencodes, rfl⟩ := (assemble_eq_ok (readSource_formed hread)).mp hassemble
    refine ⟨ss, hread, fun k st m o hk hc => ?_⟩
    have hown := readInstruction_of_mem hread (List.mem_of_getElem? hk) hc
    refine ⟨exists_numberLine_iff hown, fun v hv => ?_⟩
    obtain ⟨-, hnumber, htakes⟩ := hv.number hown
    obtain ⟨opcode, hencoding, hsize, hbytes, hwidth, hrelative⟩ :=
      (hencodes _ (mem_placed hk)).number hc hnumber
    refine ⟨opcode, littleEndian o.shape.width v, hencoding, ?_, ?_,
      represents_littleEndian_iff htakes, fun hlow => ⟨hrelative hlow, ?_⟩⟩
    · rw [← hsize, code_slice hk]
      exact hbytes
    · rw [littleEndian_length, hwidth]
    · have hone : o.shape.width = 1 := by
        unfold Shape.Takes at htakes
        omega
      rw [hone]
      rfl
  · intro line hline m v hv hrange
    rw [assembleText_eq]
    cases hread : readSource mergedName text with
    | error e => exact ⟨_, rfl⟩
    | ok ss =>
      obtain ⟨m', o, hown⟩ := hv.exists_readInstruction hread hline
      obtain ⟨-, -, htakes⟩ := hv.number hown
      unfold Shape.Takes at htakes
      omega

namespace Session

def lowestLine : String := "Loop: LDA #-128 ; lowest"

def lowestUnit : List Statement := [
  ⟨.label "Loop", { file := mergedName, line := 1 }, lowestLine⟩,
  ⟨.instruction .lda ⟨.fixed .immediate, .minus 128⟩, { file := mergedName, line := 1 },
    lowestLine⟩]

theorem lowestLine_kept : ∃ code final,
    assembleText { origin := 0x200 } lowestLine = (.ok code, final) ∧
    NumberLine lowestLine .lda (-128) ∧
    (∃ opcode operand, code.take 2 = opcode :: operand ∧ Represents operand (-128)) ∧
    ∃ e, (assembleText { origin := 0x200 } "LDA 70000").1 = .error e := by
  have hread : readSource mergedName lowestLine = .ok lowestUnit :=
    eq_ok_of_toOption (by decide +kernel)
  obtain ⟨image, himage⟩ : ∃ image, Assembly.assemble 0x200 [] lowestUnit = .ok image :=
    exists_eq_ok_of_isSome (by decide +kernel)
  have h : assembleText { origin := 0x200 } lowestLine = (.ok image.code, _) :=
    assembleText_eq_ok.mpr ⟨lowestUnit, image, hread, himage, rfl, rfl⟩
  have hline : NumberLine lowestLine .lda (-128) :=
    numberLine_immediate ['L', 'D', 'A'] ['-', '1', '2', '8'] (by decide +kernel) (by decide)
      (by decide +kernel) (.minus (by simp) (List.all_eq_true.mp (by decide)))
  have hwide : NumberLine "LDA 70000" .lda 70000 := by
    have htext : statementText "LDA 70000".toList =
        ['L', 'D', 'A'] ++ ' ' :: ['7', '0', '0', '0', '0'] := by decide +kernel
    exact .intro htext (List.all_eq_true.mp (by decide)) (by decide +kernel) rfl .bare
      (.decimal (by decide) (by decide +kernel))
  refine ⟨image.code, _, h, hline, ?_, ?_⟩
  · obtain ⟨ss, hss, hkept⟩ := (number_kept_iff { origin := 0x200 } lowestLine).1 _ _ h
    obtain rfl : lowestUnit = ss := Except.ok.inj (hread.symm.trans hss)
    obtain ⟨opcode, operand, hencoding, hslice, -, hrepresents, -⟩ :=
      (hkept 1 _ _ _ rfl rfl).2 (-128) hline
    have hsize : opcode.size = 2 := by
      rw [Opcode.size, encoding?_mode hencoding]
      rfl
    rw [hsize] at hslice
    exact ⟨opcode.code, operand, hslice, hrepresents.mpr (by decide)⟩
  · exact (number_kept_iff { origin := 0x200 } "LDA 70000").2 "LDA 70000" (by decide +kernel) .lda
      70000 hwide (by decide)

/-- A lower number leaves nothing but its low byte, which is another number. -/
theorem lowerLine_truncated : ∃ final,
    assembleText { origin := 0x200 } "LDA #-200" = (.ok [0xA9, 0x38], final) ∧
    NumberLine "LDA #-200" .lda (-200) ∧ ¬Represents [0x38] (-200) := by
  have hline : NumberLine "LDA #-200" .lda (-200) :=
    numberLine_immediate ['L', 'D', 'A'] ['-', '2', '0', '0'] (by decide +kernel) (by decide)
      (by decide +kernel) (.minus (by simp) (List.all_eq_true.mp (by decide)))
  have hread : readSource mergedName "LDA #-200" = .ok [⟨.instruction .lda
      ⟨.fixed .immediate, .minus 200⟩, { file := mergedName, line := 1 }, "LDA #-200"⟩] :=
    eq_ok_of_toOption (by decide +kernel)
  have hassemble : Assembly.assemble 0x200 [] [⟨.instruction .lda
      ⟨.fixed .immediate, .minus 200⟩, { file := mergedName, line := 1 }, "LDA #-200"⟩] =
      .ok (.ofRows [] [⟨0x200, [0xA9, 0x38], 1, "LDA #-200"⟩]) :=
    eq_ok_of_toOption (by decide +kernel)
  refine ⟨_, assembleText_eq_ok.mpr ⟨_, _, hread, hassemble, rfl, rfl⟩, hline, ?_⟩
  rintro (h | h)
  · exact absurd h (by decide)
  · exact absurd h (by decide)

end Session

end Toolchain6502.Assembly
