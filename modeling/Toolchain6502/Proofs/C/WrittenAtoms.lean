import Toolchain6502.C.Expression
import Toolchain6502.Proofs.C.DeclarationLines
import Toolchain6502.Proofs.C.Tokens

namespace Toolchain6502.C

open Text

/-- The texts that stand for a number: decimal digits, or hexadecimal ones after `$` or `0x`. -/
inductive Numeral : List Char → Nat → Prop
  | decimal {ds : List Char} (hne : ds ≠ []) (hds : ∀ c ∈ ds, c.isDigit = true)
      (hlength : ds.length ≤ maxDecimalDigits) : Numeral ds (Nat.ofDigitChars 10 ds 0)
  | dollar {ds : List Char} (hne : ds ≠ []) (hds : ∀ c ∈ ds, isHexDigit c = true) :
      Numeral ('$' :: ds) (positional 16 ds)
  | zeroX {ds : List Char} (hne : ds ≠ []) (hds : ∀ c ∈ ds, isHexDigit c = true) :
      Numeral ('0' :: 'x' :: ds) (positional 16 ds)

/-- A text for a value that is known: a numeral, or the name of a constant that no variable
hides. -/
inductive WrittenWord (scope : Scope) : Nat → List Char → Prop
  | numeral {n : Nat} {text : List Char} (h : Numeral text n) : WrittenWord scope n text
  | constant {n : Nat} {name : List Char} (hhidden : scope.address? (String.ofList name) = none)
      (h : scope.constant? (String.ofList name) = some (.whole n)) : WrittenWord scope n name

inductive WrittenTerm (scope : Scope) : Term → List Char → Prop
  | immediate {n : Nat} {text : List Char} (h : WrittenWord scope n text) (hn : n ≤ 0xFF) :
      WrittenTerm scope (.immediate (.whole n)) text
  | byte {name : List Char} {address : Int}
      (h : scope.address? (String.ofList name) = some address) :
      WrittenTerm scope (.byte address) name

/-- The text between the brackets of an access. -/
inductive WrittenAddress (scope : Scope) : Address → List Char → Prop
  | base {n : Nat} {front text back : List Char} (hfront : Blanks front) (hback : Blanks back)
      (h : WrittenWord scope n text) (hn : n ≤ 0xFFFF) :
      WrittenAddress scope ⟨.whole n, none⟩ (front ++ text ++ back)
  | offset {n : Nat} {t : Term} {front text before after offset back : List Char}
      (hfront : Blanks front) (hbefore : Blanks before) (hafter : Blanks after)
      (hback : Blanks back) (h : WrittenWord scope n text) (hn : n ≤ 0xFFFF)
      (ht : WrittenTerm scope t offset) :
      WrittenAddress scope ⟨.whole n, some t⟩
        (front ++ (text ++ before ++ '+' :: (after ++ offset)) ++ back)

/-- What may stand before the opening bracket of an access. -/
def memoryNames : List (List Char) := [[], ['m', 'e', 'm'], ['d', 'a', 't', 'a']]

inductive WrittenAtom (scope : Scope) : Expr → List Char → Prop
  | term {t : Term} {text : List Char} (h : WrittenTerm scope t text) :
      WrittenAtom scope (.term t) text
  | memory {a : Address} {name body : List Char} (hname : name ∈ memoryNames)
      (h : WrittenAddress scope a body) :
      WrittenAtom scope (.memory a) (name ++ '[' :: (body ++ [']']))

def Scope.Named (scope : Scope) : Prop :=
  (∀ name address, scope.address? name = some address → isIdentifier name.toList = true) ∧
    ∀ name value, scope.constant? name = some value → isIdentifier name.toList = true

def isWordPart (c : Char) : Bool := Assembly.isSymbolPart c || c = '$'

structure IsWord (text : List Char) : Prop where
  ne_nil : text ≠ []
  part : ∀ c ∈ text, isWordPart c = true

theorem isWordPart_of_isHexDigit {c : Char} (h : isHexDigit c = true) : isWordPart c = true := by
  simp [isWordPart, Assembly.isSymbolPart_of_isHexDigit h]

theorem isBlank_of_isWordPart {c : Char} (h : isWordPart c = true) : isBlank c = false := by
  simp only [isWordPart, Bool.or_eq_true, decide_eq_true_eq] at h
  rcases h with h | rfl
  · exact Assembly.isBlank_of_isInk (Assembly.isInk_of_isSymbolPart h)
  · rfl

theorem endsAtom_of_isWordPart {c : Char} (h : isWordPart c = true) : endsAtom c = false := by
  have hends : ∀ d ∈ "+-&|^~<>()".toList, isWordPart d = false := by
    simpa [List.all_eq_true] using (by decide : "+-&|^~<>()".toList.all (!isWordPart ·) = true)
  have hnot : c ∉ "+-&|^~<>()".toList := fun hc => by simp [hends c hc] at h
  rw [endsAtom, isBlank_of_isWordPart h, Bool.false_or]
  simpa using hnot

namespace IsWord

variable {text : List Char}

theorem not_mem (h : IsWord text) {c : Char} (hc : isWordPart c = false) : c ∉ text := by
  intro hmem
  simp [h.part c hmem] at hc

theorem trimmed (h : IsWord text) : Trimmed text :=
  ⟨fun c hc => isBlank_of_isWordPart (h.part c (List.mem_of_mem_head? hc)),
    fun c hc => isBlank_of_isWordPart (h.part c (List.mem_of_mem_getLast? hc))⟩

theorem wholeAtom (h : IsWord text) : WholeAtom text := by
  refine wholeAtom_of_plain h.ne_nil fun c hc => ⟨endsAtom_of_isWordPart (h.part c hc), ?_, ?_⟩
  · rintro rfl
    exact h.not_mem rfl hc
  · rintro rfl
    exact h.not_mem rfl hc

theorem of_isIdentifier (h : isIdentifier text = true) : IsWord text := by
  refine ⟨?_, fun c hc => ?_⟩
  · rintro rfl
    simp [isIdentifier] at h
  · have hpart := Assembly.isSymbolPart_of_mem (isSymbol_of_isIdentifier h) hc
    simp [isWordPart, hpart]

end IsWord

theorem Numeral.isWord {text : List Char} {n : Nat} (h : Numeral text n) : IsWord text := by
  cases h with
  | decimal hne hds =>
    refine ⟨hne, fun c hc => isWordPart_of_isHexDigit ?_⟩
    simp [isHexDigit, hds c hc]
  | dollar hne hds =>
    exact ⟨by simp, List.forall_mem_cons.mpr ⟨rfl, fun c hc => isWordPart_of_isHexDigit (hds c hc)⟩⟩
  | zeroX hne hds =>
    exact ⟨by simp, List.forall_mem_cons.mpr ⟨rfl, List.forall_mem_cons.mpr
      ⟨rfl, fun c hc => isWordPart_of_isHexDigit (hds c hc)⟩⟩⟩

section
variable {scope : Scope} {n : Nat} {t : Term} {text : List Char}

theorem WrittenWord.isWord (hscope : scope.Named) (h : WrittenWord scope n text) : IsWord text := by
  cases h with
  | numeral h => exact h.isWord
  | constant _ h => exact .of_isIdentifier (by simpa using hscope.2 _ _ h)

theorem WrittenTerm.isWord (hscope : scope.Named) (h : WrittenTerm scope t text) : IsWord text := by
  cases h with
  | immediate h => exact h.isWord hscope
  | byte h => exact .of_isIdentifier (by simpa using hscope.1 _ _ h)

theorem readHex_eq_ok {token ds : List Char} (hne : ds ≠ [])
    (hds : ∀ c ∈ ds, isHexDigit c = true) (hn : positional 16 ds ≤ 0xFFFF) :
    readHex token ds = .ok (positional 16 ds : Int) := by
  have hall : ds.all isHexDigit = true := List.all_eq_true.mpr hds
  simp [readHex, hne, hall, hn]

theorem readDecimal_eq_ok {ds : List Char} (hne : ds ≠ []) (hds : ∀ c ∈ ds, c.isDigit = true)
    (hlength : ds.length ≤ maxDecimalDigits) (hn : Nat.ofDigitChars 10 ds 0 ≤ 0xFFFF) :
    readDecimal ds = .ok (Nat.ofDigitChars 10 ds 0 : Int) := by
  have hall : ds.all Char.isDigit = true := List.all_eq_true.mpr hds
  have hvalue := decimal_of_isDigit hds hlength
  simp [readDecimal, hne, hall, hvalue, failWith, hn]

theorem Numeral.readLiteral (h : Numeral text n) (hn : n ≤ 0xFFFF) :
    readLiteral text = .ok (n : Int) := by
  cases h with
  | dollar hne hds => exact readHex_eq_ok hne hds hn
  | zeroX hne hds => exact readHex_eq_ok hne hds hn
  | decimal hne hds hlength =>
    unfold C.readLiteral
    split
    · exact absurd (hds 'x' (by simp)) (by decide)
    · exact absurd (hds '$' (by simp)) (by decide)
    · exact readDecimal_eq_ok hne hds hlength hn

theorem Numeral.isIdentifier (h : Numeral text n) : isIdentifier text = false := by
  have hstart {c : Char} (hc : c.isDigit = true) : isIdentifierStart c = false := by
    have hrange : 48 ≤ c.toNat ∧ c.toNat ≤ 57 := Char.isDigit_iff_toNat.mp hc
    have halpha : c.isAlpha = false := by
      rw [Bool.eq_false_iff, Ne, Assembly.isAlpha_iff]
      omega
    have hline : c ≠ '_' := by
      rintro rfl
      simp at hc
    simp [isIdentifierStart, halpha, hline]
  cases h with
  | dollar => rfl
  | zeroX => rfl
  | decimal hne hds =>
    cases text with
    | nil => exact absurd rfl hne
    | cons c ds => simp [C.isIdentifier, hstart (hds c List.mem_cons_self)]

theorem Numeral.unnamed (hscope : scope.Named) (h : Numeral text n) :
    scope.address? (String.ofList text) = none ∧ scope.constant? (String.ofList text) = none := by
  constructor
  · cases hlookup : scope.address? (String.ofList text) with
    | none => rfl
    | some address => simpa [h.isIdentifier] using hscope.1 _ _ hlookup
  · cases hlookup : scope.constant? (String.ofList text) with
    | none => rfl
    | some value => simpa [h.isIdentifier] using hscope.2 _ _ hlookup

theorem WrittenWord.address? (hscope : scope.Named) (h : WrittenWord scope n text) :
    scope.address? (String.ofList text) = none := by
  cases h with
  | numeral h => exact (h.unnamed hscope).1
  | constant hhidden h => exact hhidden

theorem WrittenWord.readWord (hscope : scope.Named) (h : WrittenWord scope n text)
    (hn : n ≤ 0xFFFF) : readWord scope text = .ok (.whole n) := by
  cases h with
  | numeral h =>
    obtain ⟨haddress, hconstant⟩ := h.unnamed hscope
    simp [C.readWord, haddress, hconstant, h.readLiteral hn, Except.map]
  | constant hhidden h => simp [C.readWord, hhidden, h]

theorem WrittenTerm.readTerm (hscope : scope.Named) (h : WrittenTerm scope t text) :
    readTerm scope text = .ok t := by
  cases h with
  | immediate h hn =>
    have hword := h.readWord hscope (by omega)
    have hfits : (Number.whole (_ : Nat)).exceeds 0xFF = false :=
      decide_eq_false (Int.not_lt.mpr (Int.ofNat_le.mpr hn))
    simp [C.readTerm, h.address? hscope, hword, hfits]
  | byte h => simp [C.readTerm, h]

/-- An address is read from between its blanks. -/
theorem WrittenAddress.readAddress (hscope : scope.Named) {a : Address} {body : List Char}
    (h : WrittenAddress scope a body) : readAddress scope (trim body) = .ok a := by
  cases h with
  | base hfront hback h hn =>
    have hword := h.isWord hscope
    rw [hword.trimmed.trim_append hword.ne_nil hfront hback, C.readAddress,
      split_of_not_mem (hword.not_mem rfl)]
    simp [hword.trimmed.trim_eq, hword.ne_nil, h.readWord hscope hn]
  | @offset n t front text before after offset back hfront hbefore hafter hback h hn ht =>
    have hword := h.isWord hscope
    have hoffset := ht.isWord hscope
    have htrimmed : Trimmed (text ++ before ++ '+' :: (after ++ offset)) := by
      have hlast : (text ++ before ++ '+' :: (after ++ offset)).getLast? = offset.getLast? := by
        rw [← List.singleton_append, ← List.append_assoc, ← List.append_assoc]
        exact List.getLast?_append_of_ne_nil _ hoffset.ne_nil
      refine ⟨fun c hc => hword.trimmed.first c ?_, fun c hc => hoffset.trimmed.last c (hlast ▸ hc)⟩
      rwa [List.append_assoc, List.head?_append_of_ne_nil _ hword.ne_nil] at hc
    have hfirst : trim (text ++ before) = text := by
      simpa using hword.trimmed.trim_append hword.ne_nil blanks_nil hbefore
    have hsecond : trim (after ++ offset) = offset := by
      simpa using hoffset.trimmed.trim_append hoffset.ne_nil hafter blanks_nil
    rw [htrimmed.trim_append (by simp) hfront hback, C.readAddress, split_append_separator,
      split_of_not_mem]
    · simp [hfirst, hsecond, hword.ne_nil, hoffset.ne_nil, h.readWord hscope hn, ht.readTerm hscope]
    · rw [List.mem_append, not_or]
      exact ⟨hafter.not_mem rfl, hoffset.not_mem rfl⟩
    · rw [List.mem_append, not_or]
      exact ⟨hword.not_mem rfl, hbefore.not_mem rfl⟩

theorem WrittenAddress.no_brackets (hscope : scope.Named) {a : Address} {body : List Char}
    (h : WrittenAddress scope a body) : '[' ∉ body ∧ ']' ∉ body := by
  have hword {text : List Char} (h : IsWord text) : '[' ∉ text ∧ ']' ∉ text :=
    ⟨h.not_mem rfl, h.not_mem rfl⟩
  have hblanks {text : List Char} (h : Blanks text) : '[' ∉ text ∧ ']' ∉ text :=
    ⟨h.not_mem rfl, h.not_mem rfl⟩
  cases h with
  | base hfront hback h _ => simp [hblanks hfront, hblanks hback, hword (h.isWord hscope)]
  | offset hfront hbefore hafter hback h _ ht =>
    simp [hblanks hfront, hblanks hbefore, hblanks hafter, hblanks hback, hword (h.isWord hscope),
      hword (ht.isWord hscope)]

theorem bracketBody?_concat {body : List Char} (hopen : '[' ∉ body) (hclose : ']' ∉ body) :
    bracketBody? 0 (body ++ [']']) = some body := by
  induction body with
  | nil => rfl
  | cons c body ih =>
    simp only [List.mem_cons, not_or] at hopen hclose
    simp [bracketBody?, Ne.symm hopen.1, Ne.symm hclose.1, ih hopen.2 hclose.2]

theorem afterOpening?_eq_none {openings : List String} (hopen : ∀ o ∈ openings, '[' ∈ o.toList)
    (h : '[' ∉ text) : afterOpening? openings text = none := by
  rw [afterOpening?, List.findSome?_eq_none_iff]
  intro o ho
  cases hprefix : o.toList.isPrefixOf? text with
  | none => rfl
  | some rest =>
    rw [← List.isPrefixOf?_eq_some_iff_append_eq.mp hprefix] at h
    exact absurd (List.mem_append_left _ (hopen o ho)) h

theorem readAccess_eq_none (h : '[' ∉ text) : readAccess scope text = .ok none := by
  have htrim : '[' ∉ trim text := fun hmem => h (mem_of_mem_trim hmem)
  have hnone {openings : List String} (hopen : ∀ o ∈ openings, '[' ∈ o.toList) :
      afterOpening? openings (trim text) = none :=
    afterOpening?_eq_none hopen htrim
  rw [readAccess, hnone (by decide), hnone (by decide), hnone (by decide)]

theorem IsWord.readAccess (h : IsWord text) : readAccess scope text = .ok none :=
  readAccess_eq_none (h.not_mem rfl)

theorem readAccess_memory {name body : List Char} (hname : name ∈ memoryNames) (hopen : '[' ∉ body)
    (hclose : ']' ∉ body) : readAccess scope (name ++ '[' :: (body ++ [']'])) =
      .ok (some (String.ofList (trim body))) := by
  simp only [memoryNames, List.mem_cons, List.not_mem_nil, or_false] at hname
  have htrimmed : Trimmed (name ++ '[' :: (body ++ [']'])) := by
    refine ⟨?_, ?_⟩
    · rcases hname with rfl | rfl | rfl <;> simp [isBlank]
    · rw [← List.cons_append, ← List.append_assoc, List.getLast?_concat]
      simp [isBlank]
  have hopening : afterOpening? ["[", "mem[", "data["] (name ++ '[' :: (body ++ [']'])) =
      some (body ++ [']']) := by
    rcases hname with rfl | rfl | rfl <;> rfl
  rw [C.readAccess, htrimmed.trim_eq, hopening]
  simp [bodyText?, bracketBody?_concat hopen hclose]

theorem WrittenAtom.readAtom (hscope : scope.Named) {e : Expr} (h : WrittenAtom scope e text) :
    readAtom scope text = .ok e := by
  cases h with
  | term h => simp [C.readAtom, (h.isWord hscope).readAccess, h.readTerm hscope]
  | memory hname h =>
    obtain ⟨hopen, hclose⟩ := h.no_brackets hscope
    simp [C.readAtom, readAccess_memory hname hopen hclose, h.readAddress hscope]

theorem WrittenAtom.wholeAtom (hscope : scope.Named) {e : Expr} (h : WrittenAtom scope e text) :
    WholeAtom text := by
  cases h with
  | term h => exact (h.isWord hscope).wholeAtom
  | memory hname h =>
    obtain ⟨hopen, hclose⟩ := h.no_brackets hscope
    refine wholeAtom_brackets ?_ hopen hclose
    simp only [memoryNames, List.mem_cons, List.not_mem_nil, or_false] at hname
    rcases hname with rfl | rfl | rfl <;> simp [endsAtom, isBlank]

end

end Toolchain6502.C
