import Toolchain6502.Assembly.Statement
import Toolchain6502.Proofs.Outcome
import Toolchain6502.Proofs.Text.WrittenText

namespace Toolchain6502.Assembly

open Text Cpu

/-- Printed characters that neither open a comment or a quotation nor end a label. -/
def isInk (c : Char) : Bool :=
  33 ≤ c.toNat && c.toNat ≤ 126 && c != ';' && c != '\'' && c != '"' && c != ':'

theorem isBlank_of_isInk {c : Char} (hc : isInk c = true) : isBlank c = false := by
  simp only [isInk, Bool.and_eq_true, decide_eq_true_eq] at hc
  simp only [isBlank, Bool.or_eq_false_iff, Bool.and_eq_false_iff, decide_eq_false_iff_not,
    beq_eq_false_iff_ne]
  omega

theorem isBreak_of_isInk {c : Char} (hc : isInk c = true) : isBreak c = false := by
  simp only [isInk, Bool.and_eq_true, decide_eq_true_eq] at hc
  simp only [isBreak, Bool.or_eq_false_iff, Bool.and_eq_false_iff, decide_eq_false_iff_not,
    beq_eq_false_iff_ne]
  omega

theorem isAlpha_iff {c : Char} : c.isAlpha = true ↔
    (65 ≤ c.toNat ∧ c.toNat ≤ 90) ∨ (97 ≤ c.toNat ∧ c.toNat ≤ 122) := by
  have halpha : c.isAlpha = (decide ('A'.val ≤ c.val ∧ c.val ≤ 'Z'.val) ||
      (decide ('a'.val ≤ c.val) && decide (c.val ≤ 'z'.val))) := rfl
  rw [halpha]
  simp only [Bool.or_eq_true, Bool.and_eq_true, decide_eq_true_eq, UInt32.le_iff_toNat_le]
  exact Iff.rfl

theorem toNat_of_isSymbolPart {c : Char} (hc : isSymbolPart c = true) :
    (48 ≤ c.toNat ∧ c.toNat ≤ 57) ∨ (65 ≤ c.toNat ∧ c.toNat ≤ 90) ∨ c.toNat = 95 ∨
      (97 ≤ c.toNat ∧ c.toNat ≤ 122) := by
  simp only [isSymbolPart, Char.isAlphanum, Bool.or_eq_true, decide_eq_true_eq, isAlpha_iff,
    Char.isDigit_iff_toNat] at hc
  rcases hc with ((hc | hc) | hc) | rfl
  · exact .inr (.inl hc)
  · exact .inr (.inr (.inr hc))
  · exact .inl hc
  · exact .inr (.inr (.inl rfl))

theorem isSymbolPart_of_isHexDigit {c : Char} (hc : isHexDigit c = true) :
    isSymbolPart c = true := by
  simp only [isHexDigit, Bool.or_eq_true, Bool.and_eq_true, decide_eq_true_eq] at hc
  simp only [isSymbolPart, Char.isAlphanum, Bool.or_eq_true, decide_eq_true_eq, isAlpha_iff]
  rcases hc with (hc | hc) | hc
  · exact .inl (.inr hc)
  · have hlow : 97 ≤ c.toNat := hc.1
    have hhigh : c.toNat ≤ 102 := hc.2
    exact .inl (.inl (.inr (by omega)))
  · have hlow : 65 ≤ c.toNat := hc.1
    have hhigh : c.toNat ≤ 70 := hc.2
    exact .inl (.inl (.inl (by omega)))

theorem isInk_of_isSymbolPart {c : Char} (hc : isSymbolPart c = true) : isInk c = true := by
  have hne (d : Char) (hd : isSymbolPart d = false) : (c != d) = true := by
    rw [bne_iff_ne]
    rintro rfl
    simp [hc] at hd
  have hrange := toNat_of_isSymbolPart hc
  simp only [isInk, Bool.and_eq_true, decide_eq_true_eq]
  exact ⟨⟨⟨⟨by omega, hne ';' rfl⟩, hne '\'' rfl⟩, hne '"' rfl⟩, hne ':' rfl⟩

theorem isInk_of_isHexDigit {c : Char} (hc : isHexDigit c = true) : isInk c = true :=
  isInk_of_isSymbolPart (isSymbolPart_of_isHexDigit hc)

theorem isSymbolPart_of_mem {name : List Char} (hname : isSymbol name = true) {c : Char}
    (hc : c ∈ name) : isSymbolPart c = true := by
  cases name with
  | nil => simp at hc
  | cons d ds =>
    simp only [isSymbol, Bool.and_eq_true, List.all_eq_true] at hname
    rcases List.mem_cons.mp hc with rfl | hc
    · have hstart := hname.1
      simp only [isSymbolStart, Bool.or_eq_true, decide_eq_true_eq] at hstart
      simp only [isSymbolPart, Char.isAlphanum, Bool.or_eq_true, decide_eq_true_eq]
      exact hstart.imp_left .inl
    · exact hname.2 c hc

theorem isInk_of_mem_symbol {name : List Char} (hname : isSymbol name = true) :
    ∀ c ∈ name, isInk c = true :=
  fun _ hc => isInk_of_isSymbolPart (isSymbolPart_of_mem hname hc)

/-- Neither a comment nor a quotation opens in the line. -/
def Unmarked (line : List Char) : Prop := ∀ c ∈ line, c ≠ ';' ∧ c ≠ '\'' ∧ c ≠ '"'

theorem unmarked_of_ink {line : List Char} (hline : ∀ c ∈ line, isInk c = true ∨ c = ' ') :
    Unmarked line := by
  intro c hc
  rcases hline c hc with hc | rfl
  · simp only [isInk, Bool.and_eq_true, bne_iff_ne] at hc
    exact ⟨hc.1.1.1.2, hc.1.1.2, hc.1.2⟩
  · decide

theorem stripComment_append {front : List Char} (hfront : Unmarked front) (rest : List Char) :
    stripComment (front ++ rest) = front ++ stripComment rest := by
  unfold stripComment
  induction front with
  | nil => rfl
  | cons c front ih =>
    have hc := hfront c List.mem_cons_self
    simp [stripCommentFrom, hc, ih fun d hd => hfront d (List.mem_cons_of_mem c hd)]

theorem stripComment_eq {line : List Char} (hline : Unmarked line) : stripComment line = line := by
  have hnil : stripComment [] = [] := rfl
  have hstrip := stripComment_append hline []
  rwa [hnil, List.append_nil] at hstrip

theorem trim_blanks_append {blanks text : List Char} (hblanks : ∀ b ∈ blanks, isBlank b = true)
    (hne : text ≠ []) (hfirst : isBlank (text.head hne) = false)
    (hlast : isBlank (text.getLast hne) = false) : trim (blanks ++ text) = text := by
  have hleft : trimLeft (blanks ++ text) = text := by
    rw [← List.cons_head_tail hne]
    exact trimLeft_blanks_append hblanks hfirst
  rw [trim, hleft, ← List.dropLast_concat_getLast hne]
  exact trimRight_concat hlast

theorem trim_of_no_blank {text : List Char} (hne : text ≠ [])
    (htext : ∀ c ∈ text, isBlank c = false) : trim text = text := by
  have hnone : ∀ b ∈ ([] : List Char), isBlank b = true := by simp
  exact trim_blanks_append hnone hne (htext _ (List.head_mem hne)) (htext _ (List.getLast_mem hne))

theorem isBlank_of_mem_spaces {k : Nat} : ∀ b ∈ List.replicate k ' ', isBlank b = true := by
  intro b hb
  rw [List.eq_of_mem_replicate hb]
  rfl

theorem mnemonic_letters (m : Mnemonic) : m.name.toList.length = 3 ∧
    m.name.toList.all Char.isAlpha = true ∧
    Mnemonic.ofName? (String.ofList (m.name.toList.map Char.toUpper)) = some m := by
  cases m <;> decide +kernel

theorem isSymbolPart_of_mnemonic {m : Mnemonic} {c : Char} (hc : c ∈ m.name.toList) :
    isSymbolPart c = true := by
  have halpha := List.all_eq_true.mp (mnemonic_letters m).2.1 c hc
  simp [isSymbolPart, Char.isAlphanum, halpha]

theorem isInk_of_mnemonic {m : Mnemonic} {c : Char} (hc : c ∈ m.name.toList) : isInk c = true :=
  isInk_of_isSymbolPart (isSymbolPart_of_mnemonic hc)

theorem readContents_label {name : List Char} (hname : isSymbol name = true) :
    readContents (name ++ [':']) = .ok [.label (String.ofList name)] := by
  have hink := isInk_of_mem_symbol hname
  have hunmarked : Unmarked (name ++ [':']) := by
    intro c hc
    rcases List.mem_append.mp hc with hc | hc
    · exact unmarked_of_ink (fun d hd => .inl (hink d hd)) c hc
    · rw [List.mem_singleton.mp hc]
      decide
  have htrim : trim (name ++ [':']) = name ++ [':'] := by
    refine trim_of_no_blank (by simp) ?_
    intro c hc
    rcases List.mem_append.mp hc with hc | hc
    · exact isBlank_of_isInk (hink c hc)
    · rw [List.mem_singleton.mp hc]
      rfl
  have hspan : (name ++ [':']).span isSymbolPart = (name, [':']) :=
    span_append (fun _ hc => isSymbolPart_of_mem hname hc) (by simp [isSymbolPart])
  have hsplit : splitLabel? (name ++ [':']) = some (name, []) := by
    unfold splitLabel?
    rw [hspan]
    have hcolon : trimLeft [':'] = [':'] := rfl
    simp [hcolon, hname]
  unfold readContents
  rw [stripComment_eq hunmarked, htrim]
  simp only [hsplit]
  rfl

theorem readBody_cons {c : Char} (hc : c ≠ '.') (cs : List Char) :
    readBody (c :: cs) =
      (readInstruction (c :: cs)).bind fun (mnemonic, operand) =>
        .ok [.instruction mnemonic operand] := by
  unfold readBody
  split
  · rename_i h
    simp at h
  · rename_i h
    exact absurd (List.cons.inj h).1 hc
  · rfl

section

variable (m : Mnemonic) {rest : List Char} (hhead : ∀ c ∈ rest.head?, c = ' ')

include hhead

theorem splitLabel?_mnemonic (hcolon : ∀ c ∈ (trimLeft rest).head?, c ≠ ':') :
    splitLabel? (m.name.toList ++ rest) = none := by
  have hspan : (m.name.toList ++ rest).span isSymbolPart = (m.name.toList, rest) := by
    refine span_append (fun c hc => isSymbolPart_of_mnemonic hc) ?_
    intro c hc
    rw [hhead c hc]
    rfl
  unfold splitLabel?
  simp only [hspan]
  split
  · rename_i after hafter
    exact absurd rfl (hcolon ':' (by rw [hafter]; rfl))
  · rfl

theorem readInstruction_mnemonic :
    readInstruction (m.name.toList ++ rest) =
      (readOperandAfter rest).bind fun operand => .ok (m, operand) := by
  obtain ⟨hlength, halpha, hname⟩ := mnemonic_letters m
  have hspan : (m.name.toList ++ rest).span Char.isAlpha = (m.name.toList, rest) := by
    refine span_append (List.all_eq_true.mp halpha) ?_
    intro c hc
    rw [hhead c hc]
    rfl
  cases hletters : m.name.toList with
  | nil => simp [hletters] at hlength
  | cons c letters =>
    have hc : isInk c = true := by
      apply isInk_of_mnemonic
      rw [hletters]
      exact List.mem_cons_self
    have hleft : trimLeft (c :: letters ++ rest) = c :: letters ++ rest :=
      List.dropWhile_cons_of_neg (by simp [isBlank_of_isInk hc])
    rw [hletters] at hspan hname
    unfold readInstruction
    rw [hleft, hspan]
    simp only [hname]
    rfl

theorem readContents_mnemonic (hrest : ∀ c ∈ rest, isInk c = true ∨ c = ' ')
    (hcolon : ∀ c ∈ (trimLeft rest).head?, c ≠ ':')
    (hlast : ∀ c ∈ rest.getLast?, isInk c = true) :
    readContents (List.replicate 8 ' ' ++ (m.name.toList ++ rest)) =
      (readOperandAfter rest).bind fun operand => .ok [.instruction m operand] := by
  have hink : ∀ c ∈ m.name.toList, isInk c = true := fun c hc => isInk_of_mnemonic hc
  have hclean : ∀ c ∈ List.replicate 8 ' ' ++ (m.name.toList ++ rest),
      isInk c = true ∨ c = ' ' := by
    intro c hc
    rw [List.mem_append, List.mem_append] at hc
    rcases hc with hc | hc | hc
    · exact .inr (List.eq_of_mem_replicate hc)
    · exact .inl (hink c hc)
    · exact hrest c hc
  have hsplit := splitLabel?_mnemonic m hhead hcolon
  have hbody := readInstruction_mnemonic m hhead
  cases hletters : m.name.toList with
  | nil => simpa [hletters] using (mnemonic_letters m).1
  | cons c letters =>
    rw [hletters] at hink hclean hsplit hbody
    have htrim : trim (List.replicate 8 ' ' ++ (c :: letters ++ rest)) = c :: letters ++ rest := by
      refine trim_blanks_append isBlank_of_mem_spaces (by simp)
        (isBlank_of_isInk (hink c List.mem_cons_self)) ?_
      by_cases hnil : rest = []
      · subst hnil
        simp only [List.append_nil]
        exact isBlank_of_isInk (hink _ (List.getLast_mem _))
      · rw [List.getLast_append_of_ne_nil (by simp) hnil]
        exact isBlank_of_isInk (hlast _ (List.getLast?_eq_some_getLast hnil))
    have hpoint : c ≠ '.' := by
      rintro rfl
      have hletter := List.all_eq_true.mp (mnemonic_letters m).2.1 '.' (by simp [hletters])
      exact absurd hletter (by decide)
    unfold readContents
    rw [stripComment_eq (unmarked_of_ink hclean), htrim]
    simp only [hsplit]
    rw [List.cons_append] at hbody ⊢
    rw [readBody_cons hpoint, hbody]
    cases readOperandAfter rest <;> rfl

end

end Toolchain6502.Assembly
