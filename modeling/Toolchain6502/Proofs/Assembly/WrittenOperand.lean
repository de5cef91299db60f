import Toolchain6502.Proofs.Assembly.OperandForms
import Toolchain6502.Proofs.Assembly.WrittenLine

namespace Toolchain6502.Assembly

open Text Cpu

theorem beforeIndex?_eq_none {register : Char} {text : List Char} (h : ',' ∉ text) :
    beforeIndex? register text = none := by
  unfold beforeIndex?
  split
  · rename_i c rest hreverse
    split
    · split
      · rename_i body hbody
        have hmem : ',' ∈ text.reverse := by
          rw [hreverse]
          apply List.mem_cons_of_mem
          apply (List.dropWhile_suffix isBlank).subset
          rw [hbody]
          exact List.mem_cons_self
        exact absurd (List.mem_reverse.mp hmem) h
      · rfl
    · rfl
  · rfl

theorem insideParens?_eq_none {text : List Char} (h : text.head? ≠ some '(') :
    insideParens? text = none := by
  unfold insideParens?
  split
  · simp at h
  · rfl

theorem firstForm?_cons_of_none {f : Form} {fs : List Form} {text : List Char}
    (h : f.read? text = .ok none) : firstForm? text (f :: fs) = firstForm? text fs := by
  rw [firstForm?, h]
  rfl

theorem firstForm?_cons_of_some {f : Form} {fs : List Form} {text : List Char} {o : Operand}
    (h : f.read? text = .ok (some o)) : firstForm? text (f :: fs) = .ok (some o) := by
  rw [firstForm?, h]
  rfl

/-- Text without punctuation around it is left to four forms. -/
theorem firstForm?_of_plain {text : List Char} (hcomma : ',' ∉ text)
    (hparen : text.head? ≠ some '(') :
    firstForm? text forms =
      firstForm? text [accumulatorForm, immediateForm, absoluteForm, directForm] := by
  have hindex (register : Char) : beforeIndex? register text = none :=
    beforeIndex?_eq_none hcomma
  simp [forms, firstForm?, Form.read?, byteForm, wordForm, hindex, insideParens?_eq_none hparen]

/-- Text without punctuation around it: what is read is the accumulator, an immediate, or a plain
word or byte. -/
theorem firstForm?_plain {text : List Char} {o : Operand} (hcomma : ',' ∉ text)
    (hparen : text.head? ≠ some '(') (h : firstForm? text forms = .ok (some o)) :
    (o = ⟨.fixed .accumulator, .number 0⟩ ∧ (text = ['A'] ∨ text = ['a'])) ∨
      (∃ body t, text = '#' :: body ∧ immediateTerm? (trim body) = some t ∧
        o = ⟨.fixed .immediate, t⟩) ∨
      (∃ t, wordTerm? false false text = .ok (some t) ∧ o = ⟨.fixed .absolute, t⟩) ∨
      ∃ t, byteTerm? text = some t ∧ o = ⟨.direct, t⟩ := by
  obtain ⟨f, hf, hread⟩ := firstForm?_eq_some h
  obtain ⟨body, t, hbody, hterm, rfl⟩ := Form.read?_eq_some hread
  clear h hread
  revert f
  -- the forms with an index or with parentheses need their punctuation
  apply forall_forms
  case accumulator =>
    intro hbody hterm
    left
    simp only [accumulatorForm, Bool.or_eq_true, decide_eq_true_eq] at hbody
    split at hbody
    · rename_i htext
      obtain rfl : .number 0 = t := Option.some.inj (Except.ok.inj hterm)
      exact ⟨rfl, htext⟩
    · simp at hbody
  case immediate =>
    intro hbody hterm
    right; left
    simp only [immediateForm] at hbody
    split at hbody
    · rename_i rest
      obtain rfl : trim rest = body := Option.some.inj hbody
      exact ⟨rest, t, rfl, Except.ok.inj hterm, rfl⟩
    · simp at hbody
  case absolute =>
    intro hbody hterm
    right; right; left
    obtain rfl : text = body := Option.some.inj hbody
    exact ⟨t, hterm, rfl⟩
  case direct =>
    intro hbody hterm
    right; right; right
    obtain rfl : text = body := Option.some.inj hbody
    exact ⟨t, Except.ok.inj hterm, rfl⟩
  all_goals
    intro hbody
    simp [byteForm, wordForm, beforeIndex?_eq_none hcomma, insideParens?_eq_none hparen] at hbody

theorem beforeIndex?_concat {body : List Char} (hne : body ≠ [])
    (hlast : isBlank (body.getLast hne) = false) (register index : Char) :
    beforeIndex? register (body ++ [',', index]) =
      if index.toUpper = register then some body else none := by
  have hreverse : body.reverse.dropWhile isBlank = body.reverse := by
    rw [← List.dropLast_concat_getLast hne, List.reverse_concat]
    exact List.dropWhile_cons_of_neg (by simp [hlast])
  have hcomma : isBlank ',' = false := rfl
  simp [beforeIndex?, hcomma, hreverse]

theorem firstForm?_indexed {ds : List Char} {o : Operand} (hds : ∀ c ∈ ds, isInk c = true)
    (h : firstForm? ('$' :: (ds ++ [',', 'Y'])) forms = .ok (some o)) :
    (∃ t, wordTerm? false true ('$' :: ds) = .ok (some t) ∧ o = ⟨.fixed .absoluteY, t⟩) ∨
      ∃ t, byteTerm? ('$' :: ds) = some t ∧ o = ⟨.fixed .zeroPageY, t⟩ := by
  have hne : '$' :: ds ≠ [] := by simp
  have hlast : isBlank (('$' :: ds).getLast hne) = false := by
    rcases List.mem_cons.mp (List.getLast_mem hne) with hc | hc
    · rw [hc]
      rfl
    · exact isBlank_of_isInk (hds _ hc)
  have hindex := beforeIndex?_concat hne hlast
  simp only [List.cons_append] at hindex
  have hliteral : Literal.read? ('$' :: (ds ++ [',', 'Y'])) = none := by
    have hcomma : isHexDigit ',' = false := rfl
    simp [Literal.read?, hexLiteral?, hcomma]
  have hline {body : List Char} (hbody : oneLine? ('$' :: ds) = some body) : '$' :: ds = body := by
    unfold oneLine? at hbody
    split at hbody
    · simp at hbody
    · exact Option.some.inj hbody
  obtain ⟨f, hf, hread⟩ := firstForm?_eq_some h
  obtain ⟨body, t, hbody, hterm, rfl⟩ := Form.read?_eq_some hread
  clear h hread
  revert f
  -- only the forms with the index Y are left, and a number with an index is no number
  apply forall_forms
  case absoluteY =>
    intro hbody hterm
    simp only [wordForm, hindex] at hbody
    obtain rfl := hline hbody
    exact .inl ⟨t, hterm, rfl⟩
  case zeroPageY =>
    intro hbody hterm
    simp only [byteForm, hindex] at hbody
    obtain rfl := hline hbody
    exact .inr ⟨t, Except.ok.inj hterm, rfl⟩
  case absolute =>
    intro hbody hterm
    obtain rfl : _ = body := Option.some.inj hbody
    simp [absoluteForm, wordTerm?, hliteral] at hterm
  case direct =>
    intro hbody hterm
    obtain rfl : _ = body := Option.some.inj hbody
    simp [directForm, byteTerm?, hliteral] at hterm
  all_goals
    intro hbody
    simp [accumulatorForm, immediateForm, byteForm, wordForm, hindex, insideParens?] at hbody

theorem isInk_of_mem_hex {w : Nat} {v : Int} {c : Char} (hc : c ∈ (hex w v).toList) :
    isInk c = true := by
  rcases mem_hex hc with rfl | hc
  · rfl
  · exact isInk_of_isHexDigit hc

theorem comma_not_mem_hex {w : Nat} {v : Int} : ',' ∉ (hex w v).toList := by
  intro hc
  rcases mem_hex hc with hc | hc
  · simp at hc
  · exact absurd hc (by decide)

theorem hexLiteral?_hex {w : Nat} {v : Int} {l : Literal}
    (h : hexLiteral? (hex w v).toList = some l) :
    ∃ n : Nat, v = n ∧ l = .hex (hex w n).toList := by
  unfold hexLiteral? at h
  split at h
  · rename_i hdigits
    by_cases hv : v < 0
    · obtain ⟨ds, hds⟩ := hex_of_neg w hv
      have hminus : isHexDigit '-' = false := rfl
      simp [hds, hminus] at hdigits
    · obtain ⟨n, rfl⟩ : ∃ n : Nat, v = n := ⟨v.toNat, by omega⟩
      exact ⟨n, rfl, (Option.some.inj h).symm⟩
  · simp at h

theorem byteTerm?_hex {w : Nat} {v : Int} {t : Term}
    (h : byteTerm? ('$' :: (hex w v).toList) = some t) :
    ∃ n : Nat, v = n ∧ w ≤ 2 ∧ n ≤ 0xFF ∧ t = .number n := by
  obtain ⟨l, hl, h⟩ := Option.bind_eq_some_iff.mp h
  obtain ⟨n, rfl, rfl⟩ := hexLiteral?_hex hl
  obtain ⟨hvalue, hlength⟩ := hex_spells w n
  simp only [Literal.byte?] at h
  split at h
  · rename_i hshort
    rw [hlength] at hshort
    have hn : n < 16 ^ 2 := (length_upperHex_le_iff (by omega)).mp (by omega)
    rw [hvalue] at h
    exact ⟨n, rfl, by omega, by omega, (Option.some.inj h).symm⟩
  · simp at h

theorem wordTerm?_hex {w : Nat} {v : Int} {named : Bool} {t : Term}
    (h : wordTerm? false named ('$' :: (hex w v).toList) = .ok (some t)) :
    ∃ n : Nat, v = n ∧ n ≤ 0xFFFF ∧ t = .number n := by
  unfold wordTerm? at h
  split at h
  · rename_i l hl
    obtain ⟨n, rfl, rfl⟩ := hexLiteral?_hex hl
    obtain ⟨hvalue, -⟩ := hex_spells w n
    have hnumber := Except.ok.inj h
    rw [hvalue] at hnumber
    unfold wordNumber? at hnumber
    split at hnumber
    · rename_i hn
      simp only [Bool.and_eq_true, decide_eq_true_eq] at hn
      exact ⟨n, rfl, hn.1, (Option.some.inj hnumber).symm⟩
    · simp at hnumber
  · simp at h

theorem hexLiteral?_natural (w n : Nat) :
    hexLiteral? (hex (w + 1) n).toList = some (.hex (hex (w + 1) n).toList) := by
  have hlength := (hex_spells (w + 1) n).2
  have hne : (hex (w + 1) n).toList ≠ [] := by
    intro hnil
    rw [hnil, List.length_nil] at hlength
    omega
  have hdigits : (hex (w + 1) n).toList.all isHexDigit = true :=
    List.all_eq_true.mpr fun c hc => isHexDigit_of_mem_hex hc
  simp [hexLiteral?, hne, hdigits]

theorem byteTerm?_byte {n : Nat} (hn : n ≤ 0xFF) :
    byteTerm? ('$' :: (hex 2 n).toList) = some (.number n) := by
  have hlength : (upperHex n).length ≤ 2 := (length_upperHex_le_iff (by omega)).mpr (by omega)
  obtain ⟨hvalue, hwidth⟩ := hex_spells 2 n
  have hshort : (hex 2 n).toList.length ≤ 2 := by omega
  simp only [byteTerm?, Literal.read?, hexLiteral?_natural 1 n, Option.bind_some, Literal.byte?,
    if_pos hshort, hvalue]

theorem wordTerm?_number {w n : Nat} (hn : n ≤ 0xFFFF) (hlength : (upperHex n).length ≤ w + 1)
    (named : Bool) :
    wordTerm? false named ('$' :: (hex (w + 1) n).toList) =
      .ok (if 2 < w + 1 then some (.number n) else none) := by
  obtain ⟨hvalue, hwidth⟩ := hex_spells (w + 1) n
  simp only [wordTerm?, Literal.read?, hexLiteral?_natural w n, Literal.word?, wordNumber?, hvalue,
    hwidth]
  grind

theorem read?_symbol {name : List Char} (hname : isSymbol name = true) :
    Literal.read? name = some (.symbol name) := by
  -- the other literals start with a sign or a digit
  have hstart : ∀ c ∈ ['$', '0', '%', '-', '\''], name.head? ≠ some c := by
    intro c hc hhead
    cases name with
    | nil => simp at hhead
    | cons d ds =>
      obtain rfl : d = c := by simpa using hhead
      have hsign : ['$', '0', '%', '-', '\''].all (fun c => !isSymbolStart c) = true := by decide
      have hd := List.all_eq_true.mp hsign d hc
      simp only [isSymbol, Bool.and_eq_true] at hname
      simp [hname.1] at hd
  unfold Literal.read?
  split
  case h_9 => simp [plainLiteral?, hname]
  all_goals exact absurd rfl (hstart _ (by simp))

/-- A name is a symbol, but for the one that the accumulator has. -/
theorem firstForm?_symbol {name : List Char} (hname : isSymbol name = true) :
    firstForm? name forms =
      .ok (some (if name = ['A'] ∨ name = ['a'] then ⟨.fixed .accumulator, .number 0⟩
        else ⟨.direct, .symbol (String.ofList name)⟩)) := by
  have hpart {c : Char} (hc : isSymbolPart c = false) : c ∉ name := by
    intro hmem
    simp [isSymbolPart_of_mem hname hmem] at hc
  have hparen : name.head? ≠ some '(' := fun hhead => hpart rfl (List.mem_of_mem_head? hhead)
  have hliteral := read?_symbol hname
  rw [firstForm?_of_plain (hpart rfl) hparen]
  by_cases haccumulator : name = ['A'] ∨ name = ['a']
  · rw [if_pos haccumulator]
    apply firstForm?_cons_of_some
    simp [Form.read?, accumulatorForm, haccumulator]
  · rw [if_neg haccumulator, firstForm?_cons_of_none, firstForm?_cons_of_none,
      firstForm?_cons_of_none, firstForm?_cons_of_some]
    · simp [Form.read?, directForm, byteTerm?, hliteral, Literal.byte?]
    · simp [Form.read?, absoluteForm, wordTerm?, hliteral, Literal.word?]
    · have hsharp : immediateForm.body? name = none := by
        simp only [immediateForm]
        split
        · exact absurd List.mem_cons_self (hpart rfl)
        · rfl
      simp [Form.read?, hsharp]
    · simp [Form.read?, accumulatorForm, haccumulator]

/-- A number after its sign is a word or else a byte. -/
theorem firstForm?_dollar (w : Nat) (v : Int) :
    firstForm? ('$' :: (hex w v).toList) forms =
      firstForm? ('$' :: (hex w v).toList) [absoluteForm, directForm] := by
  have hcomma : ',' ∉ '$' :: (hex w v).toList := by simp [comma_not_mem_hex]
  rw [firstForm?_of_plain hcomma (by simp), firstForm?_cons_of_none, firstForm?_cons_of_none]
  · simp [Form.read?, immediateForm]
  · simp [Form.read?, accumulatorForm]

theorem firstForm?_byte {n : Nat} (hn : n ≤ 0xFF) :
    firstForm? ('$' :: (hex 2 n).toList) forms = .ok (some ⟨.direct, .number n⟩) := by
  have hlength : (upperHex n).length ≤ 2 := (length_upperHex_le_iff (by omega)).mpr (by omega)
  have hword := wordTerm?_number (w := 1) (by omega) hlength false
  rw [firstForm?_dollar, firstForm?_cons_of_none, firstForm?_cons_of_some]
  · simp [Form.read?, directForm, byteTerm?_byte hn]
  · simp [Form.read?, absoluteForm, hword]

theorem firstForm?_word {n : Nat} (hn : n ≤ 0xFFFF) :
    firstForm? ('$' :: (hex 4 n).toList) forms = .ok (some ⟨.fixed .absolute, .number n⟩) := by
  have hlength : (upperHex n).length ≤ 4 := (length_upperHex_le_iff (by omega)).mpr (by omega)
  have hword := wordTerm?_number (w := 3) hn hlength false
  rw [firstForm?_dollar, firstForm?_cons_of_some]
  simp [Form.read?, absoluteForm, hword]

theorem firstForm?_immediate {n : Nat} (hn : n ≤ 0xFF) :
    firstForm? ('#' :: '$' :: (hex 2 n).toList) forms =
      .ok (some ⟨.fixed .immediate, .number n⟩) := by
  have hcomma : ',' ∉ '#' :: '$' :: (hex 2 n).toList := by simp [comma_not_mem_hex]
  have hblank : ∀ c ∈ '$' :: (hex 2 n).toList, isBlank c = false :=
    List.forall_mem_cons.mpr ⟨rfl, fun c hc => isBlank_of_isInk (isInk_of_mem_hex hc)⟩
  rw [firstForm?_of_plain hcomma (by simp), firstForm?_cons_of_none, firstForm?_cons_of_some]
  · simp [Form.read?, immediateForm, trim_of_no_blank (by simp) hblank, immediateTerm?,
      byteTerm?_byte hn]
  · simp [Form.read?, accumulatorForm]

theorem firstForm?_indexedWord {n : Nat} (hn : n ≤ 0xFFFF) :
    firstForm? ('$' :: ((hex 4 n).toList ++ [',', 'Y'])) forms =
      .ok (some ⟨.fixed .absoluteY, .number n⟩) := by
  have hink : ∀ c ∈ '$' :: (hex 4 n).toList, isInk c = true :=
    List.forall_mem_cons.mpr ⟨rfl, fun c hc => isInk_of_mem_hex hc⟩
  have hne : '$' :: (hex 4 n).toList ≠ [] := by simp
  have hindex := beforeIndex?_concat hne (isBlank_of_isInk (hink _ (List.getLast_mem hne)))
  have hline : oneLine? ('$' :: (hex 4 n).toList) = some ('$' :: (hex 4 n).toList) := by
    have hbreak : '\n' ∉ '$' :: (hex 4 n).toList := fun hc => absurd (hink _ hc) (by decide)
    simp [oneLine?, hbreak]
  have hlength : (upperHex n).length ≤ 4 := (length_upperHex_le_iff (by omega)).mpr (by omega)
  have hword := wordTerm?_number (w := 3) hn hlength true
  simp only [List.cons_append] at hindex
  unfold forms
  rw [firstForm?_cons_of_none, firstForm?_cons_of_none, firstForm?_cons_of_none,
    firstForm?_cons_of_none, firstForm?_cons_of_none, firstForm?_cons_of_none,
    firstForm?_cons_of_some]
  · simp [Form.read?, wordForm, hindex, hline, hword]
  all_goals
    simp [Form.read?, accumulatorForm, immediateForm, byteForm, wordForm, hindex, insideParens?]

theorem valueOr_eq_ok {fault : Fault} {x : Except NumeralFault (Option α)} {a : α} :
    valueOr fault x = .ok a ↔ x = .ok (some a) := by
  unfold valueOr
  split <;> simp

theorem readOperandAfter_spaces {k : Nat} {operand : List Char} (hne : operand ≠ [])
    (hink : ∀ c ∈ operand, isInk c = true) {o : Operand} :
    readOperandAfter (List.replicate (k + 1) ' ' ++ operand) = .ok o ↔
      firstForm? operand forms = .ok (some o) := by
  have hblank {c : Char} (hc : c ∈ operand) : isBlank c = false := isBlank_of_isInk (hink c hc)
  have htrim : trim (List.replicate (k + 1) ' ' ++ operand) = operand :=
    trim_blanks_append isBlank_of_mem_spaces hne (hblank (List.head_mem hne))
      (hblank (List.getLast_mem hne))
  have hread : Operand.read? (List.replicate (k + 1) ' ' ++ operand) = firstForm? operand forms := by
    unfold Operand.read?
    rw [htrim, if_neg (by simpa using hne)]
  have hafter : readOperandAfter (List.replicate (k + 1) ' ' ++ operand) =
      readOperand (List.replicate (k + 1) ' ' ++ operand) := rfl
  rw [hafter, readOperand, valueOr_eq_ok, hread]

theorem readContents_instruction (m : Mnemonic) {operand : List Char} (hne : operand ≠ [])
    (hink : ∀ c ∈ operand, isInk c = true) {cs : List Content} :
    readContents (List.replicate 8 ' ' ++
        (m.name.toList ++ (List.replicate 5 ' ' ++ operand))) = .ok cs ↔
      ∃ o, firstForm? operand forms = .ok (some o) ∧ cs = [.instruction m o] := by
  have hleft : trimLeft (List.replicate 5 ' ' ++ operand) = operand := by
    rw [← List.cons_head_tail hne]
    exact trimLeft_blanks_append isBlank_of_mem_spaces
      (isBlank_of_isInk (hink _ (List.head_mem hne)))
  rw [readContents_mnemonic m]
  · refine bind_eq_ok.trans (exists_congr fun o => ?_)
    rw [readOperandAfter_spaces hne hink, Except.ok.injEq, @eq_comm _ cs]
  · intro c hc
    simpa [eq_comm] using hc
  · intro c hc
    exact (List.mem_append.mp hc).symm.imp (hink c) List.eq_of_mem_replicate
  · rw [hleft]
    rintro c hc rfl
    exact absurd (hink ':' (List.mem_of_mem_head? hc)) (by decide)
  · intro c hc
    rw [List.getLast?_append, List.getLast?_eq_some_getLast hne, Option.some_or] at hc
    rw [← Option.some.inj hc]
    exact hink _ (List.getLast_mem hne)

end Toolchain6502.Assembly
