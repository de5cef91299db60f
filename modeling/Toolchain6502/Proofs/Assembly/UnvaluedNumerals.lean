import Toolchain6502.Proofs.Assembly.WrittenOperand
import Toolchain6502.Proofs.Text.Trimming

namespace Toolchain6502.Assembly

open Text Cpu

variable {run ds text body : List Char} {n : NumeralFault} {c : Char} {l : Literal}

def leadingDecimals (run : List Char) : Nat :=
  (run.takeWhile fun c => (decimalValue? c).isSome).length

/-- A run that spells no number: it is too long, or it has a digit that is not decimal. -/
inductive Unvalued (run : List Char) : NumeralFault → Prop
  | tooLong (h : maxDecimalDigits < leadingDecimals run) :
      Unvalued run (.tooLong (leadingDecimals run))
  | notDecimal (hshort : leadingDecimals run ≤ maxDecimalDigits)
      (h : leadingDecimals run < run.length) : Unvalued run (.notDecimal run)

theorem length_filterMap_takeWhile (f : α → Option β) (xs : List α) :
    ((xs.takeWhile fun x => (f x).isSome).filterMap f).length =
      (xs.takeWhile fun x => (f x).isSome).length := by
  induction xs with
  | nil => rfl
  | cons x xs ih =>
    cases hx : f x with
    | none => simp [hx]
    | some y => simpa [hx] using ih

theorem decimal_eq_error_iff : decimal run = .error n ↔ Unvalued run n := by
  have hlength := length_filterMap_takeWhile decimalValue? run
  unfold decimal
  simp only [hlength]
  change (if leadingDecimals run > maxDecimalDigits then _ else
    if leadingDecimals run < run.length then _ else _) = _ ↔ _
  split_ifs with hlong hother
  · constructor
    · intro h
      exact Except.error.inj h ▸ .tooLong hlong
    · rintro (h | ⟨hshort, h⟩)
      · rfl
      · omega
  · constructor
    · intro h
      exact Except.error.inj h ▸ .notDecimal (by omega) hother
    · rintro (h | ⟨hshort, h⟩)
      · omega
      · rfl
  · simp only [false_iff]
    rintro (h | ⟨hshort, h⟩) <;> omega

/-- The characters that are no digits lie between the ranges of those that are: all of ASCII but
its ten digits, and all blanks. -/
theorem toNat_of_isDigit (h : isDigit c = true) :
    (48 ≤ c.toNat ∧ c.toNat ≤ 57) ∨ (0xA1 ≤ c.toNat ∧ c.toNat < 0x1680) ∨
      (0x1680 < c.toNat ∧ c.toNat < 0x2000) ∨ (0x205F < c.toNat ∧ c.toNat < 0x3000) ∨
      0x3000 < c.toNat := by
  have hzeros : ∀ z ∈ decimalZeros, z = 48 ∨ (0xA1 ≤ z ∧ z + 9 < 0x1680) ∨
      (0x1680 < z ∧ z + 9 < 0x2000) ∨ 0x3000 < z := by decide
  have hothers : ∀ r ∈ otherDigits, (0xA1 ≤ r.1 ∧ r.2 < 0x1680) ∨ (0x1680 < r.1 ∧ r.2 < 0x2000) ∨
      (0x205F < r.1 ∧ r.2 < 0x3000) ∨ 0x3000 < r.1 := by decide
  rw [isDigit, Bool.or_eq_true] at h
  rcases h with h | h
  · rw [decimalValue?, Option.isSome_map, List.find?_isSome] at h
    obtain ⟨z, hz, hrange⟩ := h
    simp only [Bool.and_eq_true, decide_eq_true_eq] at hrange
    have := hzeros z hz
    omega
  · obtain ⟨r, hr, hrange⟩ := List.any_eq_true.mp h
    simp only [Bool.and_eq_true, decide_eq_true_eq] at hrange
    have := hothers r hr
    omega

theorem isBlank_of_isDigit (h : isDigit c = true) : isBlank c = false := by
  have hrange := toNat_of_isDigit h
  simp only [isBlank, Bool.or_eq_false_iff, Bool.and_eq_false_iff, decide_eq_false_iff_not,
    beq_eq_false_iff_ne]
  omega

theorem isAlpha_of_isDigit (h : isDigit c = true) : c.isAlpha = false := by
  have hrange := toNat_of_isDigit h
  rw [Bool.eq_false_iff, Ne, isAlpha_iff]
  omega

theorem isDigit_of_ascii (h : c.isDigit = true) : isDigit c = true := by
  simp [isDigit, decimalValue?_of_isDigit h]

def IsRun (text : List Char) : Prop := text ≠ [] ∧ ∀ c ∈ text, isDigit c = true

theorem IsRun.trimmed (h : IsRun run) : Trimmed run :=
  ⟨fun c hc => isBlank_of_isDigit (h.2 c (List.mem_of_mem_head? hc)),
    fun c hc => isBlank_of_isDigit (h.2 c (List.mem_of_getLast? hc))⟩

theorem IsRun.not_mem (h : IsRun run) (hc : isDigit c = false) : c ∉ run := by
  intro hmem
  simp [h.2 c hmem] at hc

theorem IsRun.read? (h : IsRun run) :
    Literal.read? run =
      some (if run.all Char.isDigit then .decimal false run else .digits run) := by
  have hnot {c : Char} (hc : isDigit c = false) (hmem : c ∈ run) : False := h.not_mem hc hmem
  unfold Literal.read?
  split
  · exact (hnot (c := '$') (by decide) (by simp)).elim
  · exact (hnot (c := 'x') (by decide) (by simp)).elim
  · exact (hnot (c := 'X') (by decide) (by simp)).elim
  · exact (hnot (c := '%') (by decide) (by simp)).elim
  · exact (hnot (c := 'b') (by decide) (by simp)).elim
  · exact (hnot (c := 'B') (by decide) (by simp)).elim
  · exact (hnot (c := '-') (by decide) (by simp)).elim
  · exact (hnot (c := '\'') (by decide) (by simp)).elim
  · obtain ⟨hne, hall⟩ := h
    have hsymbol : isSymbol run = false := by
      obtain ⟨c, cs, rfl⟩ := List.exists_cons_of_ne_nil hne
      have hunderscore : c ≠ '_' := by
        rintro rfl
        exact hnot (c := '_') (by decide) (by simp)
      simp [isSymbol, isSymbolStart, isAlpha_of_isDigit (hall c (by simp)), hunderscore]
    have hdigits : run.all isDigit = true := List.all_eq_true.mpr hall
    cases hascii : run.all Char.isDigit <;>
      simp [plainLiteral?, hsymbol, hne, hascii, hdigits]

theorem hexLiteral?_eq_some (h : hexLiteral? ds = some l) : l = .hex ds := by
  unfold hexLiteral? at h
  split_ifs at h
  exact (Option.some.inj h).symm

theorem binaryLiteral?_eq_some (h : binaryLiteral? ds = some l) : l = .binary ds := by
  unfold binaryLiteral? at h
  split_ifs at h
  exact (Option.some.inj h).symm

theorem decimalLiteral?_eq_some {minus : Bool} (h : decimalLiteral? minus ds = some l) :
    l = .decimal minus ds ∧ ∀ c ∈ ds, c.isDigit = true := by
  unfold decimalLiteral? at h
  split_ifs at h with hall
  rw [Bool.and_eq_true] at hall
  exact ⟨(Option.some.inj h).symm, List.all_eq_true.mp hall.2⟩

theorem quotedLiteral?_eq_some {rest : List Char} (h : quotedLiteral? rest = some l) :
    ∃ c, l = .quoted c := by
  unfold quotedLiteral? at h
  split at h
  · exact ⟨_, (Option.some.inj h).symm⟩
  · simp at h

/-- Every way in which a literal can be read: by its mark, or plainly. -/
theorem read?_cases (h : Literal.read? text = some l) :
    (∃ ds, l = .hex ds) ∨ (∃ ds, l = .binary ds) ∨ (∃ c, l = .quoted c) ∨
    (∃ ds, text = '-' :: ds ∧ l = .decimal true ds ∧ ∀ c ∈ ds, c.isDigit = true) ∨
    plainLiteral? text = some l := by
  unfold Literal.read? at h
  split at h
  case h_1 | h_2 | h_3 => exact .inl ⟨_, hexLiteral?_eq_some h⟩
  case h_4 | h_5 | h_6 => exact .inr (.inl ⟨_, binaryLiteral?_eq_some h⟩)
  case h_7 ds => exact .inr (.inr (.inr (.inl ⟨ds, rfl, decimalLiteral?_eq_some h⟩)))
  case h_8 => exact .inr (.inr (.inl (quotedLiteral?_eq_some h)))
  case h_9 => exact .inr (.inr (.inr (.inr h)))

theorem plainLiteral?_eq_some (h : plainLiteral? text = some l) :
    l = .symbol text ∨
    (l = .decimal false text ∧ text ≠ [] ∧ ∀ c ∈ text, c.isDigit = true) ∨
    (l = .digits text ∧ IsRun text) := by
  unfold plainLiteral? at h
  split_ifs at h with hsymbol hempty hascii hdigits
  · exact .inl (Option.some.inj h).symm
  · exact .inr (.inl ⟨(Option.some.inj h).symm, by simpa using hempty, List.all_eq_true.mp hascii⟩)
  · exact .inr (.inr ⟨(Option.some.inj h).symm, by simpa using hempty, List.all_eq_true.mp hdigits⟩)

theorem isRun_of_read?
    (h : Literal.read? text = some (.decimal false ds) ∨ Literal.read? text = some (.digits ds)) :
    ds = text ∧ IsRun text := by
  have hplain {l : Literal} (hl : l = .decimal false ds ∨ l = .digits ds)
      (hread : Literal.read? text = some l) : plainLiteral? text = some l := by
    rcases read?_cases hread with ⟨_, h⟩ | ⟨_, h⟩ | ⟨_, h⟩ | ⟨_, -, h, -⟩ | h
    · simp [h] at hl
    · simp [h] at hl
    · simp [h] at hl
    · simp [h] at hl
    · exact h
  rcases h with h | h
  · rcases plainLiteral?_eq_some (hplain (.inl rfl) h) with h | ⟨h, hne, hall⟩ | ⟨h, -⟩
    · simp at h
    · obtain ⟨-, rfl⟩ := Literal.decimal.inj h
      exact ⟨rfl, hne, fun c hc => isDigit_of_ascii (hall c hc)⟩
    · simp at h
  · rcases plainLiteral?_eq_some (hplain (.inr rfl) h) with h | ⟨h, -⟩ | ⟨h, hrun⟩
    · simp at h
    · simp at h
    · exact ⟨Literal.digits.inj h, hrun⟩

theorem wordTerm?_eq_error_iff (loose named : Bool) :
    wordTerm? loose named text = .error n ↔ IsRun text ∧ Unvalued text n := by
  constructor
  · intro h
    unfold wordTerm? at h
    split at h
    · rename_i l hl
      have hdecimal {ds : List Char} (h : (do
          let n ← decimal ds
          return wordNumber? (n ≤ 0xFF) loose n) = .error n) : Unvalued ds n := by
        rcases bind_eq_error.mp h with h | ⟨m, -, h⟩
        · exact decimal_eq_error_iff.mp h
        · simp at h
      cases l with
      | decimal minus ds =>
        cases minus with
        | true => simp [Literal.word?] at h
        | false =>
          obtain ⟨rfl, hrun⟩ := isRun_of_read? (.inl hl)
          exact ⟨hrun, hdecimal h⟩
      | digits ds =>
        obtain ⟨rfl, hrun⟩ := isRun_of_read? (.inr hl)
        exact ⟨hrun, hdecimal h⟩
      | hex _ | binary _ | quoted _ | symbol _ => simp [Literal.word?] at h
    · simp at h
  · rintro ⟨hrun, hvalue⟩
    have hdecimal := decimal_eq_error_iff.mpr hvalue
    have hread := hrun.read?
    split_ifs at hread <;> simp [wordTerm?, hread, Literal.word?, hdecimal]

/-- An operand that is a run without a value: alone, in parentheses, or before an index register. -/
inductive NumeralOperand (n : NumeralFault) : List Char → Prop
  | plain {run : List Char} (hrun : IsRun run) (h : Unvalued run n) : NumeralOperand n run
  | indirect {front run back : List Char} (hrun : IsRun run) (h : Unvalued run n)
      (hfront : ∀ c ∈ front, isBlank c = true) (hback : ∀ c ∈ back, isBlank c = true) :
      NumeralOperand n ('(' :: (front ++ run ++ back ++ [')']))
  | indexed {run front back : List Char} {register : Char} (hrun : IsRun run) (h : Unvalued run n)
      (hfront : ∀ c ∈ front, isBlank c = true) (hback : ∀ c ∈ back, isBlank c = true)
      (hregister : register.toUpper = 'X' ∨ register.toUpper = 'Y') :
      NumeralOperand n (run ++ front ++ ',' :: (back ++ [register]))

theorem insideParens?_eq_some :
    insideParens? text = some body ↔ ∃ inner, text = '(' :: (inner ++ [')']) ∧ body = trim inner := by
  constructor
  · intro h
    unfold insideParens? at h
    split at h
    · rename_i rest
      split at h
      · rename_i inner hreverse
        refine ⟨inner.reverse, ?_, (Option.some.inj h).symm⟩
        rw [← List.reverse_cons, ← hreverse, List.reverse_reverse]
      · simp at h
    · simp at h
  · rintro ⟨inner, rfl, rfl⟩
    simp [insideParens?]

theorem beforeIndex?_eq_some {register : Char} (h : beforeIndex? register text = some body) :
    ∃ front back c, text = body ++ front ++ ',' :: (back ++ [c]) ∧ c.toUpper = register ∧
      (∀ b ∈ front, isBlank b = true) ∧ ∀ b ∈ back, isBlank b = true := by
  unfold beforeIndex? at h
  split at h
  · rename_i c rest hreverse
    split_ifs at h with hc
    split at h
    · rename_i before hbefore
      obtain ⟨back, hback, hrest⟩ := exists_trimLeft_eq rest
      obtain ⟨front, hfront, hsplit⟩ := exists_trimLeft_eq before
      rw [trimLeft, hbefore] at hrest
      obtain rfl := Option.some.inj h
      refine ⟨front.reverse, back.reverse, c, ?_, hc, fun b hb => hfront b (List.mem_reverse.mp hb),
        fun b hb => hback b (List.mem_reverse.mp hb)⟩
      have htext : text = (c :: (back ++ ',' :: before)).reverse := by
        rw [← hrest, ← hreverse, List.reverse_reverse]
      rw [htext]
      conv_lhs => rw [hsplit]
      simp [trimLeft]
    · simp at h
  · simp at h

theorem beforeIndex?_of_blanks {front back : List Char} (register : Char)
    (hlast : ∀ b ∈ body.getLast?, isBlank b = false) (hfront : ∀ b ∈ front, isBlank b = true)
    (hback : ∀ b ∈ back, isBlank b = true) :
    beforeIndex? register (body ++ front ++ ',' :: (back ++ [c])) =
      if c.toUpper = register then some body else none := by
  have hreverse : (body ++ front ++ ',' :: (back ++ [c])).reverse =
      c :: (back.reverse ++ ',' :: (front.reverse ++ body.reverse)) := by simp
  have hcomma : isBlank ',' = false := rfl
  have hdropped : (back.reverse ++ ',' :: (front.reverse ++ body.reverse)).dropWhile isBlank =
      ',' :: (front.reverse ++ body.reverse) := by
    exact trimLeft_append (fun b hb => hback b (List.mem_reverse.mp hb)) (by simp [hcomma])
  have hbody : (front.reverse ++ body.reverse).dropWhile isBlank = body.reverse := by
    refine trimLeft_append (fun b hb => hfront b (List.mem_reverse.mp hb)) ?_
    rwa [List.head?_reverse]
  unfold beforeIndex?
  rw [hreverse]
  simp only [hdropped, hbody, List.reverse_reverse]

theorem oneLine?_eq_some (h : oneLine? text = some body) : body = text := by
  unfold oneLine? at h
  split_ifs at h
  exact (Option.some.inj h).symm

theorem Form.read?_eq_error {f : Form} (h : f.read? text = .error n) :
    ∃ body, f.body? text = some body ∧ f.term? body = .error n := by
  unfold Form.read? at h
  split at h
  · simp at h
  · rename_i body hbody
    rcases bind_eq_error.mp h with h | ⟨term, -, h⟩
    · exact ⟨body, hbody, h⟩
    · simp at h

theorem firstForm?_eq_error {fs : List Form} (h : firstForm? text fs = .error n) :
    ∃ f ∈ fs, f.read? text = .error n := by
  induction fs with
  | nil => simp [firstForm?] at h
  | cons f rest ih =>
    rcases bind_eq_error.mp h with h | ⟨r, -, h⟩
    · exact ⟨f, List.mem_cons_self, h⟩
    · cases r with
      | some o => simp at h
      | none =>
        obtain ⟨g, hg, hread⟩ := ih h
        exact ⟨g, List.mem_cons_of_mem f hg, hread⟩

/-- Of the forms only those of a word can fail, and they fail at a run. -/
theorem numeralOperand_of_forms :
    ∀ f ∈ forms, ∀ body, f.body? text = some body → f.term? body = .error n →
      NumeralOperand n text := by
  have hindexed {mode : Mode} {register : Char} (hregister : register = 'X' ∨ register = 'Y')
      (body : List Char)
      (hbody : (wordForm mode false (beforeIndex? register)).body? text = some body)
      (hterm : wordTerm? false true body = .error n) : NumeralOperand n text := by
    obtain ⟨own, hown, hline⟩ := Option.bind_eq_some_iff.mp hbody
    obtain rfl := oneLine?_eq_some hline
    obtain ⟨hrun, hvalue⟩ := (wordTerm?_eq_error_iff _ _).mp hterm
    obtain ⟨front, back, c, rfl, rfl, hfront, hback⟩ := beforeIndex?_eq_some hown
    exact .indexed hrun hvalue hfront hback hregister
  apply forall_forms
  case indirect =>
    intro body hbody hterm
    obtain ⟨own, hown, hline⟩ := Option.bind_eq_some_iff.mp hbody
    obtain rfl := oneLine?_eq_some hline
    obtain ⟨hrun, hvalue⟩ := (wordTerm?_eq_error_iff _ _).mp hterm
    obtain ⟨inner, rfl, rfl⟩ := insideParens?_eq_some.mp hown
    obtain ⟨front, back, hfront, hback, hinner⟩ := exists_trim_eq inner
    rw [hinner]
    exact .indirect hrun hvalue hfront hback
  case absoluteX => exact hindexed (.inl rfl)
  case absoluteY => exact hindexed (.inr rfl)
  case absolute =>
    intro body hbody hterm
    obtain rfl : text = body := Option.some.inj hbody
    obtain ⟨hrun, hvalue⟩ := (wordTerm?_eq_error_iff _ _).mp hterm
    exact .plain hrun hvalue
  all_goals
    intro body _ hterm
    simp [accumulatorForm, immediateForm, byteForm, directForm] at hterm

section

variable {run front back : List Char} {n : NumeralFault}

theorem IsRun.oneLine? (hrun : IsRun run) : Assembly.oneLine? run = some run := by
  simp [Assembly.oneLine?, hrun.not_mem (c := '\n') (by decide)]

theorem IsRun.accumulator (hrun : IsRun run) (rest : List Char) :
    accumulatorForm.body? (run ++ rest) = none := by
  obtain ⟨c, cs, rfl⟩ := List.exists_cons_of_ne_nil hrun.1
  have hupper : c ≠ 'A' := by
    rintro rfl
    exact hrun.not_mem (c := 'A') (by decide) List.mem_cons_self
  have hlower : c ≠ 'a' := by
    rintro rfl
    exact hrun.not_mem (c := 'a') (by decide) List.mem_cons_self
  simp [accumulatorForm, hupper, hlower]

theorem IsRun.head?_ne (hrun : IsRun run) (rest : List Char) (hc : isDigit c = false) :
    (run ++ rest).head? ≠ some c := by
  obtain ⟨d, ds, rfl⟩ := List.exists_cons_of_ne_nil hrun.1
  intro hhead
  obtain rfl : d = c := by simpa using hhead
  exact hrun.not_mem hc List.mem_cons_self

theorem immediateForm_eq_none (h : text.head? ≠ some '#') : immediateForm.body? text = none := by
  unfold immediateForm
  simp only
  split
  · simp at h
  · rfl

theorem firstForm?_plain_run (hrun : IsRun run) (h : Unvalued run n) :
    firstForm? run forms = .error n := by
  have hterm := (wordTerm?_eq_error_iff false false).mpr ⟨hrun, h⟩
  have haccumulator := hrun.accumulator []
  have himmediate := immediateForm_eq_none (hrun.head?_ne [] (c := '#') (by decide))
  rw [List.append_nil] at haccumulator himmediate
  rw [firstForm?_of_plain (hrun.not_mem (by decide)) ?_]
  · simp [firstForm?, Form.read?, haccumulator, himmediate, absoluteForm, hterm]
  · have := hrun.head?_ne [] (c := '(') (by decide)
    rwa [List.append_nil] at this

theorem firstForm?_indirect_run (hrun : IsRun run) (h : Unvalued run n)
    (hfront : ∀ c ∈ front, isBlank c = true) (hback : ∀ c ∈ back, isBlank c = true) :
    firstForm? ('(' :: (front ++ run ++ back ++ [')'])) forms = .error n := by
  have hterm := (wordTerm?_eq_error_iff true true).mpr ⟨hrun, h⟩
  have hinside : insideParens? ('(' :: (front ++ run ++ back ++ [')'])) = some run :=
    insideParens?_eq_some.mpr
      ⟨front ++ run ++ back, rfl, (hrun.trimmed.trim_append hrun.1 hfront hback).symm⟩
  have hindex : beforeIndex? 'Y' ('(' :: (front ++ run ++ back ++ [')'])) = none := by
    simp [beforeIndex?]
  have hnone (register : Char) : beforeIndex? register run = none :=
    beforeIndex?_eq_none (hrun.not_mem (by decide))
  have haccumulator : accumulatorForm.body? ('(' :: (front ++ run ++ back ++ [')'])) = none := by
    simp [accumulatorForm]
  have himmediate : immediateForm.body? ('(' :: (front ++ run ++ back ++ [')'])) = none :=
    immediateForm_eq_none (by simp)
  simp only [forms, firstForm?, Form.read?, haccumulator, himmediate, byteForm, wordForm, hinside,
    hindex, hnone, hrun.oneLine?, hterm, Option.bind_none, Option.bind_some, ok_bind, error_bind]

theorem firstForm?_indexed_run {register : Char} (hrun : IsRun run) (h : Unvalued run n)
    (hfront : ∀ c ∈ front, isBlank c = true) (hback : ∀ c ∈ back, isBlank c = true)
    (hregister : register.toUpper = 'X' ∨ register.toUpper = 'Y') :
    firstForm? (run ++ front ++ ',' :: (back ++ [register])) forms = .error n := by
  have hterm := (wordTerm?_eq_error_iff false true).mpr ⟨hrun, h⟩
  have hindex (r : Char) := beforeIndex?_of_blanks (c := register) r hrun.trimmed.last hfront hback
  have hinside : insideParens? (run ++ front ++ ',' :: (back ++ [register])) = none := by
    rw [List.append_assoc]
    exact insideParens?_eq_none (hrun.head?_ne _ (by decide))
  have hnone : insideParens? run = none := by
    have hhead := hrun.head?_ne [] (c := '(') (by decide)
    rw [List.append_nil] at hhead
    exact insideParens?_eq_none hhead
  have haccumulator : accumulatorForm.body? (run ++ front ++ ',' :: (back ++ [register])) = none := by
    rw [List.append_assoc]
    exact hrun.accumulator _
  have himmediate : immediateForm.body? (run ++ front ++ ',' :: (back ++ [register])) = none := by
    rw [List.append_assoc]
    exact immediateForm_eq_none (hrun.head?_ne _ (by decide))
  generalize run ++ front ++ ',' :: (back ++ [register]) = text at *
  rcases hregister with hregister | hregister
  · simp [forms, firstForm?, Form.read?, haccumulator, himmediate, byteForm, wordForm, hinside,
      hindex, hregister, hrun.oneLine?, hterm]
  · simp [forms, firstForm?, Form.read?, haccumulator, himmediate, byteForm, wordForm, hinside,
      hindex, hregister, hnone, hrun.oneLine?, hterm]

end

/-- An operand fails without a fault just when it is a run of digits that has no value. -/
theorem Operand.read?_eq_error_iff :
    Operand.read? text = .error n ↔ NumeralOperand n (trim text) := by
  unfold Operand.read?
  constructor
  · intro h
    split_ifs at h with hempty
    obtain ⟨f, hf, hread⟩ := firstForm?_eq_error h
    obtain ⟨body, hbody, hterm⟩ := Form.read?_eq_error hread
    exact numeralOperand_of_forms f hf body hbody hterm
  · intro h
    generalize trim text = operand at h
    cases h with
    | plain hrun hvalue =>
      rw [if_neg (by simpa using hrun.1)]
      exact firstForm?_plain_run hrun hvalue
    | indirect hrun hvalue hfront hback =>
      rw [if_neg (by simp)]
      exact firstForm?_indirect_run hrun hvalue hfront hback
    | indexed hrun hvalue hfront hback hregister =>
      rw [if_neg (by simp)]
      exact firstForm?_indexed_run hrun hvalue hfront hback hregister

/-- A decimal number of ASCII digits, with a minus sign or without, that is too long. -/
inductive LongNumber : NumeralFault → List Char → Prop
  | intro {sign ds : List Char} (hsign : sign = [] ∨ sign = ['-'])
      (hdigits : ∀ c ∈ ds, c.isDigit = true) (hlong : maxDecimalDigits < ds.length) :
      LongNumber (.tooLong ds.length) (sign ++ ds)

theorem leadingDecimals_of_isDigit (h : ∀ c ∈ ds, c.isDigit = true) :
    leadingDecimals ds = ds.length := by
  have hall : ds.takeWhile (fun c => (decimalValue? c).isSome) = ds := by
    rw [List.takeWhile_eq_self_iff]
    intro c hc
    rw [decimalValue?_of_isDigit (h c hc)]
    rfl
  rw [leadingDecimals, hall]

theorem unvalued_of_isDigit_iff (h : ∀ c ∈ ds, c.isDigit = true) :
    Unvalued ds n ↔ maxDecimalDigits < ds.length ∧ n = .tooLong ds.length := by
  have hleading := leadingDecimals_of_isDigit h
  constructor
  · rintro (hlong | ⟨hshort, hother⟩)
    · rw [hleading] at hlong ⊢
      exact ⟨hlong, rfl⟩
    · omega
  · rintro ⟨hlong, rfl⟩
    rw [← hleading] at hlong ⊢
    exact .tooLong hlong

theorem read?_eq_decimal {minus : Bool} (h : Literal.read? text = some (.decimal minus ds)) :
    (∀ c ∈ ds, c.isDigit = true) ∧ text = (if minus then ['-'] else []) ++ ds := by
  rcases read?_cases h with ⟨_, h⟩ | ⟨_, h⟩ | ⟨_, h⟩ | ⟨rest, rfl, h, hall⟩ | h
  · simp at h
  · simp at h
  · simp at h
  · obtain ⟨rfl, rfl⟩ := Literal.decimal.inj h
    exact ⟨hall, rfl⟩
  · rcases plainLiteral?_eq_some h with h | ⟨h, -, hall⟩ | ⟨h, -⟩
    · simp at h
    · obtain ⟨rfl, rfl⟩ := Literal.decimal.inj h
      exact ⟨hall, rfl⟩
    · simp at h

theorem number?_eq_error_iff : number? text = .error n ↔ LongNumber n (trim text) := by
  unfold number?
  generalize trim text = value
  constructor
  · intro h
    split at h
    · rename_i l hl
      cases l with
      | decimal minus ds =>
        obtain ⟨hdigits, rfl⟩ := read?_eq_decimal hl
        rcases bind_eq_error.mp h with h | ⟨m, -, h⟩
        · obtain ⟨hlong, rfl⟩ := (unvalued_of_isDigit_iff hdigits).mp (decimal_eq_error_iff.mp h)
          exact .intro (by cases minus <;> simp) hdigits hlong
        · simp at h
      | hex _ | binary _ | quoted _ | digits _ | symbol _ => simp [Literal.number?] at h
    · simp at h
  · intro h
    cases h with
    | @intro sign ds hsign hdigits hlong =>
    have hdecimal : decimal ds = .error (.tooLong ds.length) :=
      decimal_eq_error_iff.mpr ((unvalued_of_isDigit_iff hdigits).mpr ⟨hlong, rfl⟩)
    have hne : ds ≠ [] := by
      rintro rfl
      simp at hlong
    have hall : ds.all Char.isDigit = true := List.all_eq_true.mpr hdigits
    rcases hsign with rfl | rfl
    · have hrun : IsRun ds := ⟨hne, fun c hc => isDigit_of_ascii (hdigits c hc)⟩
      simp [hrun.read?, hall, Literal.number?, hdecimal]
    · have hread : Literal.read? ('-' :: ds) = some (.decimal true ds) := by
        simp [Literal.read?, decimalLiteral?, hne, hall]
      simp [hread, Literal.number?, hdecimal]

def statementText (line : List Char) : List Char :=
  match splitLabel? (trim (stripComment line)) with
  | some (_, after) => trim after
  | none => trim (stripComment line)

/-- An instruction or a constant whose value is a numeral that has none. -/
inductive NumeralStatement (n : NumeralFault) (text : List Char) : Prop
  | instruction {letters operand : List Char} {b : Char} (htext : text = letters ++ b :: operand)
      (hletters : ∀ c ∈ letters, c.isAlpha = true)
      (hmnemonic : (Mnemonic.ofName? (String.ofList (letters.map Char.toUpper))).isSome = true)
      (hblank : isBlank b = true) (h : NumeralOperand n (trim operand))
  | constant {word rest name value : List Char} (hpoint : text.head? = some '.')
      (hword : spanWord text = (word, rest)) (hname : String.ofList (lower word) = ".const")
      (hrest : splitConstant? rest = some (name, value)) (h : LongNumber n value)

theorem valueOr_eq_numeral {fault : Fault} {x : Except NumeralFault (Option α)} :
    valueOr fault x = .error (.numeral n) ↔ x = .error n := by
  rcases x with e | (_ | a) <;> simp [valueOr]

theorem trimmed_statementText (line : List Char) : Trimmed (statementText line) := by
  unfold statementText
  split
  · exact trimmed_trim _
  · exact trimmed_trim _

/-- A line is read to its label, if it has one, and to its statement. -/
theorem statement_of_readContents {line : List Char} {cs : List Content}
    (h : readContents line = .ok cs) {c : Content} (hc : c ∈ cs) :
    (∃ name, c = .label name) ∨ ∃ body, readBody (statementText line) = .ok body ∧ c ∈ body := by
  rw [readContents] at h
  rw [statementText]
  cases hlabel : splitLabel? (trim (stripComment line)) with
  | none =>
    rw [hlabel] at h
    exact .inr ⟨cs, h, hc⟩
  | some label =>
    rw [hlabel] at h
    obtain ⟨body, hbody, h⟩ := bind_eq_ok.mp h
    rw [← Except.ok.inj h] at hc
    rcases List.mem_cons.mp hc with rfl | hc
    · exact .inl ⟨_, rfl⟩
    · exact .inr ⟨body, hbody, hc⟩

theorem readBody_eq_ok {body : List Content} (h : readBody text = .ok body) {c : Content}
    (hc : c ∈ body) :
    readDirective text = .ok c ∨ ∃ m o, readInstruction text = .ok (m, o) ∧ c = .instruction m o := by
  unfold readBody at h
  split at h
  · rw [← Except.ok.inj h] at hc
    simp at hc
  · obtain ⟨content, hcontent, h⟩ := bind_eq_ok.mp h
    rw [← Except.ok.inj h, List.mem_singleton] at hc
    exact .inl (hc ▸ hcontent)
  · obtain ⟨⟨m, o⟩, hread, h⟩ := bind_eq_ok.mp h
    rw [← Except.ok.inj h, List.mem_singleton] at hc
    exact .inr ⟨m, o, hread, hc⟩

theorem readDirective_eq_ok {c : Content} (h : readDirective text = .ok c) :
    ∃ name value v, readConstantValue value = .ok v ∧ c = .constant name v := by
  unfold readDirective at h
  split at h
  simp only at h
  split at h
  · unfold readConstant at h
    split at h
    · simp at h
    · rename_i name value _
      obtain ⟨v, hv, h⟩ := bind_eq_ok.mp h
      exact ⟨String.ofList name, value, v, hv, (Except.ok.inj h).symm⟩
  · split at h <;> simp at h

theorem trim_of_splitConstant? {rest name value : List Char}
    (h : splitConstant? rest = some (name, value)) : trim value = value := by
  unfold splitConstant? at h
  simp only at h
  split_ifs at h
  obtain ⟨-, rfl⟩ := Prod.mk.inj (Option.some.inj h)
  exact trim_trim _

theorem readConstantValue_eq_numeral_iff :
    readConstantValue text = .error (.numeral n) ↔ LongNumber n (trim text) := by
  rw [← number?_eq_error_iff, readConstantValue]
  cases number? text with
  | error m => simp
  | ok r =>
    cases r with
    | none => cases constantSymbol text <;> simp [faultAs]
    | some m => cases hconstant : constantNumber text m <;> simp [faultAs, hconstant]

theorem readDirective_eq_numeral_iff :
    readDirective text = .error (.numeral n) ↔ ∃ word rest name value,
      spanWord text = (word, rest) ∧ String.ofList (lower word) = ".const" ∧
      splitConstant? rest = some (name, value) ∧ LongNumber n value := by
  have hconstant (rest : List Char) : readConstant rest = .error (.numeral n) ↔
      ∃ name value, splitConstant? rest = some (name, value) ∧ LongNumber n value := by
    unfold readConstant
    split
    · rename_i hnone
      simp [hnone]
    · rename_i name value hsome
      rw [bind_eq_error, readConstantValue_eq_numeral_iff, trim_of_splitConstant? hsome]
      simp [hsome]
  unfold readDirective
  split
  rename_i word rest hword
  simp only [hword, Prod.mk.injEq]
  split_ifs with hname hinclude
  · rw [hconstant]
    simp [hname]
  · simp [hname]
  · simp [hname]

theorem readOperandAfter_eq_numeral_iff {rest : List Char} :
    readOperandAfter rest = .error (.numeral n) ↔ ∃ b operand, rest = b :: operand ∧
      isBlank b = true ∧ NumeralOperand n (trim operand) := by
  cases rest with
  | nil => simp [readOperandAfter]
  | cons b operand =>
    cases hblank : isBlank b with
    | false => simp [readOperandAfter, hblank]
    | true =>
      have htrim : trim (b :: operand) = trim operand := by simp [trim, trimLeft, hblank]
      rw [readOperandAfter, if_pos hblank, readOperand, valueOr_eq_numeral,
        Operand.read?_eq_error_iff, htrim]
      simp [hblank]

theorem isAlpha_of_isBlank (h : isBlank c = true) : c.isAlpha = false := by
  rw [Bool.eq_false_iff, Ne, isAlpha_iff]
  simp only [isBlank, Bool.or_eq_true, Bool.and_eq_true, decide_eq_true_eq, beq_iff_eq] at h
  omega

theorem letters_ne_nil {letters : List Char}
    (h : (Mnemonic.ofName? (String.ofList (letters.map Char.toUpper))).isSome = true) :
    letters ≠ [] := by
  rintro rfl
  exact absurd h (by decide)

theorem readInstruction_eq_numeral_iff (htext : Trimmed text) :
    readInstruction text = .error (.numeral n) ↔ ∃ letters b operand,
      text = letters ++ b :: operand ∧ (∀ c ∈ letters, c.isAlpha = true) ∧
      (Mnemonic.ofName? (String.ofList (letters.map Char.toUpper))).isSome = true ∧
      isBlank b = true ∧ NumeralOperand n (trim operand) := by
  unfold readInstruction
  rw [trimLeft_eq_self htext.first]
  constructor
  · intro h
    split at h
    · simp at h
    · rename_i letters rest _ hspan
      split at h
      · simp at h
      · rename_i mnemonic hmnemonic
        rw [List.span_eq_takeWhile_dropWhile] at hspan
        obtain ⟨hletters, hrest⟩ := Prod.mk.inj hspan
        rcases bind_eq_error.mp h with h | ⟨o, -, h⟩
        · obtain ⟨b, operand, rfl, hblank, hoperand⟩ := readOperandAfter_eq_numeral_iff.mp h
          refine ⟨letters, b, operand, ?_, ?_, by simp [hmnemonic], hblank, hoperand⟩
          · rw [← hletters, ← hrest, List.takeWhile_append_dropWhile]
          · intro c hc
            rw [← hletters] at hc
            exact List.mem_takeWhile_imp hc
        · simp at h
  · rintro ⟨letters, b, operand, rfl, hletters, hmnemonic, hblank, hoperand⟩
    have hspan : (letters ++ b :: operand).span Char.isAlpha = (letters, b :: operand) :=
      span_append hletters (by simpa using isAlpha_of_isBlank hblank)
    have hfails : readOperandAfter (b :: operand) = .error (.numeral n) :=
      readOperandAfter_eq_numeral_iff.mpr ⟨b, operand, rfl, hblank, hoperand⟩
    have hne := letters_ne_nil hmnemonic
    obtain ⟨mnemonic, hmnemonic⟩ := Option.isSome_iff_exists.mp hmnemonic
    rw [hspan]
    split
    · rename_i hnil
      exact absurd (Prod.mk.inj hnil).1 hne
    · rename_i hsplit
      obtain ⟨rfl, rfl⟩ := Prod.mk.inj hsplit
      simp only [hmnemonic, hfails, error_bind]

theorem readBody_eq_numeral_iff (htext : Trimmed text) :
    readBody text = .error (.numeral n) ↔ NumeralStatement n text := by
  unfold readBody
  split
  · refine ⟨by simp, ?_⟩
    rintro (⟨hempty, -, -, -, -⟩ | ⟨hpoint, -, -, -, -⟩)
    · simp at hempty
    · simp at hpoint
  · rename_i cs
    rw [bind_eq_error, readDirective_eq_numeral_iff]
    constructor
    · rintro (⟨word, rest, name, value, hword, hname, hrest, hvalue⟩ | ⟨c, -, h⟩)
      · exact .constant rfl hword hname hrest hvalue
      · simp at h
    · rintro (⟨hpoint, hletters, hmnemonic, -, -⟩ | ⟨-, hword, hname, hrest, hvalue⟩)
      · -- a mnemonic does not start with a point
        obtain ⟨c, rest, rfl⟩ := List.exists_cons_of_ne_nil (letters_ne_nil hmnemonic)
        obtain ⟨rfl, -⟩ := List.cons.inj hpoint
        exact absurd (hletters '.' List.mem_cons_self) (by decide)
      · exact .inl ⟨_, _, _, _, hword, hname, hrest, hvalue⟩
  · rename_i hempty hpoint
    rw [bind_eq_error, readInstruction_eq_numeral_iff htext]
    constructor
    · rintro (⟨letters, b, operand, hsplit, hletters, hmnemonic, hblank, hoperand⟩ | ⟨r, -, h⟩)
      · exact .instruction hsplit hletters hmnemonic hblank hoperand
      · simp at h
    · rintro (⟨hsplit, hletters, hmnemonic, hblank, hoperand⟩ | ⟨hhead, -, -, -, -⟩)
      · exact .inl ⟨_, _, _, hsplit, hletters, hmnemonic, hblank, hoperand⟩
      · obtain ⟨cs, rfl⟩ := List.head?_eq_some_iff.mp hhead
        exact absurd rfl (hpoint cs)

theorem readContents_eq_numeral_iff {line : List Char} :
    readContents line = .error (.numeral n) ↔ NumeralStatement n (statementText line) := by
  rw [← readBody_eq_numeral_iff (trimmed_statementText line), readContents, statementText]
  cases splitLabel? (trim (stripComment line)) with
  | none => rfl
  | some r => simp [bind_eq_error]

theorem readLine_eq_numeral_iff {line : String} {place : Location} :
    readLine line place = .error (.numeral n) ↔ NumeralStatement n (statementText line.toList) := by
  rw [← readContents_eq_numeral_iff, readLine]
  cases readContents line.toList with
  | ok contents => simp
  | error e => cases e <;> simp [ReadFailure.place]

theorem exists_readLine_eq_ok {line : String} {place : Location} :
    (∃ ss, readLine line place = .ok ss) ↔ ∃ contents, readContents line.toList = .ok contents := by
  rw [readLine]
  cases readContents line.toList <;> simp

/-- The lines of a text fail without a fault at the first that cannot be read, if its numeral has no
value. -/
theorem readLinesFrom_eq_numeral_iff {file : String} {number : Nat} {ls : List String} :
    readLinesFrom file number ls = .error (.numeral n) ↔ ∃ earlier line later,
      ls = earlier ++ line :: later ∧
      (∀ l ∈ earlier, ∃ contents, readContents l.toList = .ok contents) ∧
      NumeralStatement n (statementText line.toList) := by
  induction ls generalizing number with
  | nil => simp [readLinesFrom]
  | cons first rest ih =>
    rw [readLinesFrom, bind_eq_error, readLine_eq_numeral_iff]
    constructor
    · rintro (hfirst | ⟨ss, hss, h⟩)
      · exact ⟨[], first, rest, rfl, by simp, hfirst⟩
      · rcases bind_eq_error.mp h with h | ⟨others, -, h⟩
        · obtain ⟨earlier, line, later, rfl, hearlier, hline⟩ := ih.mp h
          refine ⟨first :: earlier, line, later, rfl, ?_, hline⟩
          exact List.forall_mem_cons.mpr ⟨exists_readLine_eq_ok.mp ⟨ss, hss⟩, hearlier⟩
        · simp at h
    · rintro ⟨earlier, line, later, hsplit, hearlier, hline⟩
      cases earlier with
      | nil =>
        obtain ⟨rfl, rfl⟩ := List.cons.inj hsplit
        exact .inl hline
      | cons l earlier =>
        obtain ⟨rfl, rfl⟩ := List.cons.inj hsplit
        rw [List.forall_mem_cons] at hearlier
        obtain ⟨ss, hss⟩ := exists_readLine_eq_ok.mpr hearlier.1
        refine .inr ⟨ss, hss, bind_eq_error.mpr (.inl ?_)⟩
        exact ih.mpr ⟨earlier, line, later, rfl, hearlier.2, hline⟩

end Toolchain6502.Assembly
