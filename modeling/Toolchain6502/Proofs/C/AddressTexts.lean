import Toolchain6502.Proofs.Assembly.UnvaluedNumerals
import Toolchain6502.Proofs.C.AcceptedTexts

namespace Toolchain6502.C

open Text

variable {scope : Scope} {token : List Char}

/-- A token with a value of its own: the name of a constant that no variable hides, or a numeral of
sixteen bits. -/
inductive WordToken (scope : Scope) : List Char → Number → Prop
  | constant {name : List Char} {v : Number} (hhidden : scope.address? (String.ofList name) = none)
      (h : scope.constant? (String.ofList name) = some v) : WordToken scope name v
  | numeral {ds : List Char} {n : Nat} (hvariable : scope.address? (String.ofList ds) = none)
      (hconstant : scope.constant? (String.ofList ds) = none) (h : Numeral ds n) (hn : n ≤ 0xFFFF) :
      WordToken scope ds (.whole n)

/-- A variable, or a token whose value is at most the largest byte. -/
inductive OffsetToken (scope : Scope) : List Char → Term → Prop
  | byte {name : List Char} {address : Int}
      (h : scope.address? (String.ofList name) = some address) :
      OffsetToken scope name (.byte address)
  | immediate {token : List Char} {v : Number} (h : WordToken scope token v)
      (hv : v.exceeds 0xFF = false) : OffsetToken scope token (.immediate v)

/-- A numeral that is not in the scope and has more digits than are counted. -/
structure Overlong (scope : Scope) (token : List Char) : Prop where
  variableFree : scope.address? (String.ofList token) = none
  constantFree : scope.constant? (String.ofList token) = none
  digits : ∀ c ∈ token, c.isDigit = true
  long : maxDecimalDigits < token.length

/-- The outcomes of a reader of tokens: a value, a numeral that is too long, or a fault. -/
inductive TokenOutcome (value : α → Prop) (overlong : Prop) : Except Failure α → Prop
  | ok {a : α} (h : value a) : TokenOutcome value overlong (.ok a)
  | overlong {f : NumeralFault} (h : overlong) : TokenOutcome value overlong (.error (.numeral f))
  | fault (d : Diagnostic) : TokenOutcome value overlong (.error (.c d))

theorem TokenOutcome.imp {value value' : α → Prop} {overlong overlong' : Prop} {r : Except Failure α}
    (h : TokenOutcome value overlong r) (hvalue : ∀ a, value a → value' a)
    (hoverlong : overlong → overlong') : TokenOutcome value' overlong' r := by
  cases h with
  | ok h => exact .ok (hvalue _ h)
  | overlong h => exact .overlong (hoverlong h)
  | fault d => exact .fault d

theorem TokenOutcome.of_ok {value : α → Prop} {overlong : Prop} {a : α}
    (h : TokenOutcome value overlong (.ok a)) : value a := by
  cases h
  assumption

theorem TokenOutcome.bind {value : α → Prop} {value' : β → Prop} {overlong overlong' : Prop}
    {r : Except Failure α} {f : α → Except Failure β} (h : TokenOutcome value overlong r)
    (hf : ∀ a, value a → TokenOutcome value' overlong' (f a)) (hoverlong : overlong → overlong') :
    TokenOutcome value' overlong' (r >>= f) := by
  cases h with
  | ok h => exact hf _ h
  | overlong h => exact .overlong (hoverlong h)
  | fault d => exact .fault d

theorem outcome_readHex (token digits : List Char) {overlong : Prop} :
    TokenOutcome (fun v : Int => digits ≠ [] ∧ (∀ c ∈ digits, isHexDigit c = true) ∧
      positional 16 digits ≤ 0xFFFF ∧ v = positional 16 digits) overlong (readHex token digits) := by
  unfold readHex
  dsimp only
  split
  · rename_i h
    simp only [Bool.and_eq_true, Bool.not_eq_true', List.isEmpty_eq_false_iff, List.all_eq_true,
      decide_eq_true_eq] at h
    exact .ok ⟨h.1.1, h.1.2, h.2, rfl⟩
  · exact .fault _

theorem readDecimal_of_overlong (hds : ∀ c ∈ token, c.isDigit = true)
    (hlong : maxDecimalDigits < token.length) :
    readDecimal token = .error (.numeral (.tooLong token.length)) := by
  have hne : token ≠ [] := List.ne_nil_of_length_pos (by omega)
  have hall : token.all Char.isDigit = true := List.all_eq_true.mpr hds
  have hvalue : decimal token = .error (.tooLong token.length) :=
    Assembly.decimal_eq_error_iff.mpr ((Assembly.unvalued_of_isDigit_iff hds).mpr ⟨hlong, rfl⟩)
  simp [readDecimal, hne, hall, hvalue, failWith]

theorem readDecimal_of_large (hne : token ≠ []) (hds : ∀ c ∈ token, c.isDigit = true)
    (hlength : token.length ≤ maxDecimalDigits) (hn : ¬Nat.ofDigitChars 10 token 0 ≤ 0xFFFF) :
    readDecimal token = fail (.unknownToken (String.ofList token)) := by
  have hall : token.all Char.isDigit = true := List.all_eq_true.mpr hds
  have hvalue := decimal_of_isDigit hds hlength
  generalize Nat.ofDigitChars 10 token 0 = n at hvalue hn
  simp [readDecimal, hne, hall, hvalue, failWith, if_neg hn]

theorem outcome_readDecimal (token : List Char) :
    TokenOutcome (fun v : Int => ∃ n, Numeral token n ∧ n ≤ 0xFFFF ∧ v = n)
      ((∀ c ∈ token, c.isDigit = true) ∧ maxDecimalDigits < token.length) (readDecimal token) := by
  by_cases hdigits : token ≠ [] ∧ ∀ c ∈ token, c.isDigit = true
  · obtain ⟨hne, hds⟩ := hdigits
    by_cases hlength : token.length ≤ maxDecimalDigits
    · by_cases hn : Nat.ofDigitChars 10 token 0 ≤ 0xFFFF
      · rw [readDecimal_eq_ok hne hds hlength hn]
        exact .ok ⟨_, .decimal hne hds hlength, hn, rfl⟩
      · rw [readDecimal_of_large hne hds hlength hn]
        exact .fault _
    · rw [readDecimal_of_overlong hds (Nat.lt_of_not_le hlength)]
      exact .overlong ⟨hds, Nat.lt_of_not_le hlength⟩
  · have hother : (!token.isEmpty && token.all Char.isDigit) = false := by
      rw [Bool.eq_false_iff]
      intro h
      simp only [Bool.and_eq_true, Bool.not_eq_true', List.isEmpty_eq_false_iff,
        List.all_eq_true] at h
      exact hdigits h
    have hfails : readDecimal token = fail (.unknownToken (String.ofList token)) := by
      simp [readDecimal, hother]
    rw [hfails]
    exact .fault _

theorem outcome_readLiteral (token : List Char) :
    TokenOutcome (fun v : Int => ∃ n, Numeral token n ∧ n ≤ 0xFFFF ∧ v = n)
      ((∀ c ∈ token, c.isDigit = true) ∧ maxDecimalDigits < token.length) (readLiteral token) := by
  unfold readLiteral
  split
  · rename_i digits
    refine (outcome_readHex _ digits).imp ?_ False.elim
    rintro v ⟨hne, hds, hn, rfl⟩
    exact ⟨_, .zeroX hne hds, hn, rfl⟩
  · rename_i digits
    refine (outcome_readHex _ digits).imp ?_ False.elim
    rintro v ⟨hne, hds, hn, rfl⟩
    exact ⟨_, .dollar hne hds, hn, rfl⟩
  · exact outcome_readDecimal token

theorem Overlong.readWord (h : Overlong scope token) :
    readWord scope token = .error (.numeral (.tooLong token.length)) := by
  have hliteral : readLiteral token = .error (.numeral (.tooLong token.length)) := by
    unfold readLiteral
    split
    · exact absurd (h.digits 'x' (by simp)) (by decide)
    · exact absurd (h.digits '$' (by simp)) (by decide)
    · exact readDecimal_of_overlong h.digits h.long
  simp [C.readWord, h.variableFree, h.constantFree, hliteral, Except.map]

theorem WordToken.readWord {v : Number} (h : WordToken scope token v) :
    readWord scope token = .ok v := by
  cases h with
  | constant hhidden h => simp [C.readWord, hhidden, h]
  | numeral hvariable hconstant h hn =>
    simp [C.readWord, hvariable, hconstant, h.readLiteral hn, Except.map]

theorem outcome_readWord (scope : Scope) (token : List Char) :
    TokenOutcome (WordToken scope token) (Overlong scope token) (readWord scope token) := by
  unfold readWord
  dsimp only
  split
  · exact .fault _
  · rename_i hhidden h
    exact .ok (.constant hhidden h)
  · rename_i hvariable hconstant
    have hliteral := outcome_readLiteral token
    generalize readLiteral token = r at hliteral
    cases hliteral with
    | ok h =>
      obtain ⟨n, hnumeral, hn, rfl⟩ := h
      exact .ok (.numeral hvariable hconstant hnumeral hn)
    | overlong h => exact .overlong ⟨hvariable, hconstant, h.1, h.2⟩
    | fault d => exact .fault d

theorem OffsetToken.readTerm {t : Term} (h : OffsetToken scope token t) :
    readTerm scope token = .ok t := by
  cases h with
  | byte h => simp [C.readTerm, h]
  | immediate h hv =>
    have hvariable : scope.address? (String.ofList token) = none := by
      cases h <;> assumption
    simp [C.readTerm, hvariable, h.readWord, hv]

theorem Overlong.readTerm (h : Overlong scope token) :
    readTerm scope token = .error (.numeral (.tooLong token.length)) := by
  simp [C.readTerm, h.variableFree, h.readWord]

theorem outcome_readTerm (scope : Scope) (token : List Char) :
    TokenOutcome (OffsetToken scope token) (Overlong scope token) (readTerm scope token) := by
  unfold readTerm
  split
  · rename_i h
    exact .ok (.byte h)
  · refine (outcome_readWord scope token).bind (fun v h => ?_) id
    cases hv : v.exceeds 0xFF with
    | true =>
      simp only [if_true, fail, error_bind]
      exact .fault _
    | false => exact .ok (.immediate h hv)

/-- A base, or a base and an offset with one plus sign between them. Neither is blank. -/
inductive AddressText (scope : Scope) : List Char → Address → Prop
  | base {text : List Char} {v : Number} (hplus : '+' ∉ text) (hne : trim text ≠ [])
      (h : WordToken scope (trim text) v) : AddressText scope text ⟨v, none⟩
  | sum {left right : List Char} {v : Number} {t : Term} (hleft : '+' ∉ left) (hright : '+' ∉ right)
      (hbase : trim left ≠ []) (hoffset : trim right ≠ []) (h : WordToken scope (trim left) v)
      (ht : OffsetToken scope (trim right) t) :
      AddressText scope (left ++ '+' :: right) ⟨v, some t⟩

def addressParts (text : List Char) : List (List Char) :=
  ((split '+' text).map trim).filter fun part => !part.isEmpty

def readParts (scope : Scope) : List (List Char) → Except Failure Address
  | [base] => do
    let base ← readWord scope base
    return { base }
  | [base, offset] => do
    let base ← readWord scope base
    let offset ← readTerm scope offset
    return { base, offset := some offset }
  | _ => fail .addressForm

theorem readAddress_eq (scope : Scope) (text : List Char) :
    readAddress scope text = readParts scope (addressParts text) := rfl

def Filled (text : List Char) : Prop := ∀ part ∈ split '+' text, trim part ≠ []

variable {text : List Char} {a : Address}

theorem Filled.addressParts (h : Filled text) : addressParts text = (split '+' text).map trim := by
  refine List.filter_eq_self.mpr ?_
  intro part hpart
  obtain ⟨raw, hraw, rfl⟩ := List.mem_map.mp hpart
  simpa using h raw hraw

theorem AddressText.filled (h : AddressText scope text a) : Filled text := by
  cases h with
  | base hplus hne h =>
    rw [Filled, split_of_not_mem hplus]
    exact List.forall_mem_singleton.mpr hne
  | sum hleft hright hbase hoffset h ht =>
    rw [Filled, split_append_separator hleft, split_of_not_mem hright]
    exact List.forall_mem_cons.mpr ⟨hbase, List.forall_mem_singleton.mpr hoffset⟩

theorem AddressText.readAddress (h : AddressText scope text a) :
    readAddress scope text = .ok a := by
  rw [readAddress_eq, h.filled.addressParts]
  cases h with
  | base hplus hne h =>
    simp [split_of_not_mem hplus, readParts, h.readWord]
  | sum hleft hright hbase hoffset h ht =>
    simp [split_append_separator hleft, split_of_not_mem hright, readParts, h.readWord, ht.readTerm]

theorem addressText_of_readAddress (h : readAddress scope text = .ok a) (hfilled : Filled text) :
    AddressText scope text a := by
  have htext := intercalate_split '+' text
  have hplus (part : List Char) (hpart : part ∈ split '+' text) : '+' ∉ part :=
    not_mem_of_mem_split hpart
  rw [readAddress_eq, hfilled.addressParts] at h
  rw [← htext]
  unfold Filled at hfilled
  match hsplit : split '+' text with
  | [] => exact absurd hsplit (split_ne_nil '+' text)
  | [base] =>
    rw [hsplit, List.forall_mem_singleton] at hfilled hplus
    rw [hsplit] at h
    obtain ⟨v, hv, h⟩ := bind_eq_ok.mp h
    obtain rfl := Except.ok.inj h
    rw [List.intercalate_singleton]
    exact .base hplus hfilled (hv ▸ outcome_readWord scope (trim base)).of_ok
  | [base, offset] =>
    rw [hsplit, List.forall_mem_cons, List.forall_mem_singleton] at hfilled hplus
    rw [hsplit] at h
    obtain ⟨v, hv, h⟩ := bind_eq_ok.mp h
    obtain ⟨t, ht, h⟩ := bind_eq_ok.mp h
    obtain rfl := Except.ok.inj h
    rw [List.intercalate_cons_cons, List.intercalate_singleton, List.append_assoc,
      List.singleton_append]
    exact .sum hplus.1 hplus.2 hfilled.1 hfilled.2 (hv ▸ outcome_readWord scope (trim base)).of_ok
      (ht ▸ outcome_readTerm scope (trim offset)).of_ok
  | _ :: _ :: _ :: _ =>
    rw [hsplit] at h
    simp [readParts, fail] at h

/-- A text with its blank parts left out, and the blanks around the others. -/
def tidied (text : List Char) : List Char := ['+'].intercalate (addressParts text)

theorem of_mem_addressParts {part : List Char} (h : part ∈ addressParts text) :
    '+' ∉ part ∧ trim part = part ∧ part ≠ [] := by
  obtain ⟨hpart, hne⟩ := List.mem_filter.mp h
  obtain ⟨raw, hraw, rfl⟩ := List.mem_map.mp hpart
  exact ⟨fun hmem => not_mem_of_mem_split hraw (mem_of_mem_trim hmem), trim_trim raw,
    by simpa using hne⟩

theorem split_tidied (h : addressParts text ≠ []) : split '+' (tidied text) = addressParts text :=
  split_intercalate h fun _ hpart => (of_mem_addressParts hpart).1

theorem filled_tidied (h : addressParts text ≠ []) : Filled (tidied text) := by
  intro part hpart
  rw [split_tidied h] at hpart
  obtain ⟨-, htrim, hne⟩ := of_mem_addressParts hpart
  rwa [htrim]

/-- The reader does not see what is left out. -/
theorem readAddress_tidied (scope : Scope) (text : List Char) :
    readAddress scope (tidied text) = readAddress scope text := by
  rw [readAddress_eq, readAddress_eq]
  by_cases hnil : addressParts text = []
  · rw [tidied, hnil]
    rfl
  · have hself : (addressParts text).map trim = addressParts text :=
      (List.map_congr_left fun _ hpart => (of_mem_addressParts hpart).2.1).trans (List.map_id _)
    rw [(filled_tidied hnil).addressParts, split_tidied hnil, hself]

theorem readAddress_eq_ok_iff :
    readAddress scope text = .ok a ↔ AddressText scope (tidied text) a := by
  rw [← readAddress_tidied]
  constructor
  · intro h
    refine addressText_of_readAddress h (filled_tidied fun hnil => ?_)
    rw [readAddress_tidied, readAddress_eq, hnil] at h
    simp [readParts, fail] at h
  · exact AddressText.readAddress

/-- A base that is too long a numeral, or an offset behind a base that is read. -/
def OverlongPart (scope : Scope) : List (List Char) → Prop
  | [base] => Overlong scope base
  | [base, offset] =>
    Overlong scope base ∨ (∃ v, WordToken scope base v) ∧ Overlong scope offset
  | _ => False

theorem outcome_readParts (scope : Scope) (parts : List (List Char)) :
    TokenOutcome (fun _ => True) (OverlongPart scope parts) (readParts scope parts) := by
  unfold readParts
  split
  · exact (outcome_readWord scope _).bind (fun _ _ => .ok trivial) id
  · refine (outcome_readWord scope _).bind (fun v hv => ?_) .inl
    exact (outcome_readTerm scope _).bind (fun _ _ => .ok trivial) fun h => .inr ⟨⟨v, hv⟩, h⟩
  · exact .fault _

theorem OverlongPart.readParts {parts : List (List Char)} (h : OverlongPart scope parts) :
    ∃ f, readParts scope parts = .error (.numeral f) := by
  unfold OverlongPart at h
  split at h
  · exact ⟨_, by rw [C.readParts, h.readWord]; rfl⟩
  · rcases h with h | ⟨⟨v, hv⟩, h⟩
    · exact ⟨_, by rw [C.readParts, h.readWord]; rfl⟩
    · exact ⟨_, by rw [C.readParts, hv.readWord, ok_bind, h.readTerm]; rfl⟩
  · exact h.elim

/-- An address is read exactly if what is left of its text without the blank parts is a base, or a
base, one plus sign and an offset. The text itself is of that form only if it has no blank part, so
that plus signs may also stand before, behind and beside each other. Every other text is a fault,
unless a numeral is so long that it has no value. -/
theorem readAddress_passes_over_blank_parts (scope : Scope) (text : List Char) :
    (∀ a, readAddress scope text = .ok a ↔ AddressText scope (tidied text) a) ∧
    (∀ a, AddressText scope text a ↔
      readAddress scope text = .ok a ∧ ∀ part ∈ split '+' text, trim part ≠ []) ∧
    (∀ e, readAddress scope text = .error e → (∃ d, e = .c d) ∨ ∃ f, e = .numeral f) ∧
    ((∃ f, readAddress scope text = .error (.numeral f)) ↔
      OverlongPart scope (addressParts text)) := by
  refine ⟨fun a => readAddress_eq_ok_iff, fun a => ⟨fun h => ⟨h.readAddress, h.filled⟩, ?_⟩, ?_, ?_⟩
  · rintro ⟨h, hfilled⟩
    exact addressText_of_readAddress h hfilled
  · intro e h
    have houtcome := outcome_readParts scope (addressParts text)
    rw [← readAddress_eq, h] at houtcome
    cases houtcome with
    | overlong _ => exact .inr ⟨_, rfl⟩
    | fault d => exact .inl ⟨d, rfl⟩
  · constructor
    · rintro ⟨f, h⟩
      have houtcome := outcome_readParts scope (addressParts text)
      rw [← readAddress_eq, h] at houtcome
      cases houtcome with
      | overlong h => exact h
    · exact OverlongPart.readParts

theorem trailingPlus_read : ∃ scope : Scope,
    readAddress scope ['V', 'R', 'A', 'M', ' ', '+'] = .ok ⟨.whole 0x2000, none⟩ ∧
      ∀ a, ¬AddressText scope ['V', 'R', 'A', 'M', ' ', '+'] a := by
  refine ⟨{ constants := [("VRAM", .whole 0x2000)] }, eq_ok_of_toOption (by decide +kernel), ?_⟩
  intro a h
  have hblank : ([] : List Char) ∈ split '+' ['V', 'R', 'A', 'M', ' ', '+'] := by decide
  exact h.filled [] hblank rfl

end Toolchain6502.C
