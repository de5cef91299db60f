import Toolchain6502.Proofs.Assembly.LiteralOperands

namespace Toolchain6502.Assembly

open Text

inductive Radix where
  | hexadecimal
  | binary
  | decimal
deriving DecidableEq, Repr

namespace Radix

def base : Radix → Nat
  | hexadecimal => 16
  | binary => 2
  | decimal => 10

def marks : Radix → List (List Char)
  | hexadecimal => hexMarks
  | binary => binaryMarks
  | decimal => [[]]

def isDigit : Radix → Char → Bool
  | hexadecimal => isHexDigit
  | binary => isBinaryDigit
  | decimal => Char.isDigit

def byteDigits : Radix → Nat
  | hexadecimal => 2
  | binary => 8
  | decimal => 3

end Radix

/-- A number without a sign, as it is written with ASCII digits. -/
structure Unsigned where
  radix : Radix
  mark : List Char
  digits : List Char
  mark_mem : mark ∈ radix.marks
  digits_ne_nil : digits ≠ []
  isDigit_of_mem : ∀ c ∈ digits, radix.isDigit c = true

namespace Unsigned

def text (l : Unsigned) : List Char := l.mark ++ l.digits

def value (l : Unsigned) : Nat := positional l.radix.base l.digits

/-- A decimal number with the value of a byte and too many digits for one. -/
def Padded (l : Unsigned) : Prop :=
  l.radix = .decimal ∧ l.radix.byteDigits < l.digits.length ∧ l.value ≤ 0xFF

def literal (l : Unsigned) : Literal :=
  match l.radix with
  | .hexadecimal => .hex l.digits
  | .binary => .binary l.digits
  | .decimal => .decimal false l.digits

theorem read?_text (l : Unsigned) : Literal.read? l.text = some l.literal := by
  obtain ⟨radix, mark, ds, hmark, hne, hds⟩ := l
  cases radix with
  | hexadecimal =>
    have hread : hexLiteral? ds = some (.hex ds) := hexLiteral?_eq_some_iff.mpr ⟨hne, hds, rfl⟩
    simp only [Radix.marks, hexMarks, List.mem_cons, List.not_mem_nil, or_false] at hmark
    rcases hmark with rfl | rfl | rfl <;> exact hread
  | binary =>
    have hread : binaryLiteral? ds = some (.binary ds) :=
      binaryLiteral?_eq_some_iff.mpr ⟨hne, hds, rfl⟩
    simp only [Radix.marks, binaryMarks, List.mem_cons, List.not_mem_nil, or_false] at hmark
    rcases hmark with rfl | rfl | rfl <;> exact hread
  | decimal =>
    obtain rfl : mark = [] := List.mem_singleton.mp hmark
    have hrun : IsRun ds := ⟨hne, fun c hc => isDigit_of_ascii (hds c hc)⟩
    have hall : ds.all Char.isDigit = true := List.all_eq_true.mpr hds
    change Literal.read? ds = some (.decimal false ds)
    rw [hrun.read?, if_pos hall]

theorem trim_text (l : Unsigned) : trim l.text = l.text := by
  have hmark {r : Radix} : ∀ m ∈ r.marks, m.all isValuePart = true := by
    cases r <;> decide
  have hdigit {r : Radix} {c : Char} (hc : r.isDigit c = true) : isSymbolPart c = true := by
    cases r with
    | hexadecimal => exact isSymbolPart_of_isHexDigit hc
    | binary =>
      simp only [Radix.isDigit, isBinaryDigit, Bool.or_eq_true, decide_eq_true_eq] at hc
      rcases hc with rfl | rfl <;> rfl
    | decimal =>
      change c.isDigit = true at hc
      simp [isSymbolPart, Char.isAlphanum, hc]
  refine (solid_of_parts (by simp [text, l.digits_ne_nil]) fun c hc => ?_).trimmed.trim_eq
  rcases List.mem_append.mp hc with hc | hc
  · exact List.all_eq_true.mp (hmark _ l.mark_mem) c hc
  · simp [isValuePart, hdigit (l.isDigit_of_mem c hc)]

/-- A number that is read has the value of its digits, and a decimal one is read from them. -/
theorem number?_text {l : Unsigned} {v : Int} (h : number? l.text = .ok (some v)) :
    v = l.value ∧ (l.radix = .decimal → Text.decimal l.digits = .ok l.value) := by
  rw [number?, trim_text, read?_text] at h
  obtain ⟨radix, mark, ds, hmark, hne, hds⟩ := l
  cases radix with
  | hexadecimal => exact ⟨(Option.some.inj (Except.ok.inj h)).symm, fun hr => by simp at hr⟩
  | binary => exact ⟨(Option.some.inj (Except.ok.inj h)).symm, fun hr => by simp at hr⟩
  | decimal =>
    obtain ⟨n, hn, h⟩ := bind_eq_ok.mp h
    have hvalue : some n = some (positional 10 ds) :=
      (runValue?_of_decimal hn).symm.trans (runValue?_of_isDigit hds)
    obtain rfl := Option.some.inj hvalue
    exact ⟨(Option.some.inj (Except.ok.inj h)).symm, fun _ => hn⟩

/-- Few digits of base two or sixteen have the value of a byte. -/
theorem value_le_of_length {l : Unsigned} (hr : l.radix ≠ .decimal)
    (h : l.digits.length ≤ l.radix.byteDigits) : l.value ≤ 0xFF := by
  obtain ⟨radix, mark, ds, hmark, hne, hds⟩ := l
  cases radix with
  | hexadecimal =>
    have hlt : positional 16 ds < 16 ^ ds.length :=
      positional_lt fun c hc => digitValue_of_isHexDigit (hds c hc)
    have hpow : 16 ^ ds.length ≤ 16 ^ 2 := Nat.pow_le_pow_right (by decide) h
    change positional 16 ds ≤ 0xFF
    omega
  | binary =>
    have hlt : positional 2 ds < 2 ^ ds.length :=
      positional_lt fun c hc => digitValue_of_isBinaryDigit (hds c hc)
    have hpow : 2 ^ ds.length ≤ 2 ^ 8 := Nat.pow_le_pow_right (by decide) h
    change positional 2 ds ≤ 0xFF
    omega
  | decimal => exact absurd rfl hr

theorem byteTerm?_text (l : Unsigned) : byteTerm? l.text =
    if l.digits.length ≤ l.radix.byteDigits ∧ l.value ≤ 0xFF then some (.number l.value)
    else none := by
  rw [byteTerm?, read?_text, Option.bind_some]
  by_cases hr : l.radix = .decimal
  · obtain ⟨radix, mark, ds, hmark, hne, hds⟩ := l
    obtain rfl : radix = .decimal := hr
    change (if (ds.length ≤ 3 && positional 10 ds ≤ 0xFF) = true then some _ else none) = _
    exact if_congr (by simp [Radix.byteDigits, value, Radix.base]) rfl rfl
  · have hnarrow : (l.digits.length ≤ l.radix.byteDigits ∧ l.value ≤ 0xFF) ↔
        l.digits.length ≤ l.radix.byteDigits :=
      and_iff_left_of_imp (value_le_of_length hr)
    simp only [hnarrow]
    obtain ⟨radix, mark, ds, hmark, hne, hds⟩ := l
    cases radix with
    | hexadecimal => rfl
    | binary => rfl
    | decimal => exact absurd rfl hr

def short (l : Unsigned) : Bool :=
  match l.radix with
  | .decimal => l.value ≤ 0xFF
  | _ => l.digits.length ≤ l.radix.byteDigits

theorem wordTerm?_text {l : Unsigned} (loose named : Bool)
    (hdecimal : l.radix = .decimal → Text.decimal l.digits = .ok l.value) :
    wordTerm? loose named l.text = .ok (wordNumber? l.short loose l.value) := by
  rw [wordTerm?, read?_text]
  obtain ⟨radix, mark, ds, hmark, hne, hds⟩ := l
  cases radix with
  | hexadecimal => rfl
  | binary => rfl
  | decimal =>
    change (do let n ← Text.decimal ds; return wordNumber? (n ≤ 0xFF) loose n) = _
    rw [hdecimal rfl]
    rfl

/-- What is wide enough for a word is no byte, and only padded numbers are neither. -/
theorem byte_iff_short (l : Unsigned) :
    (l.digits.length ≤ l.radix.byteDigits ∧ l.value ≤ 0xFF) ↔ l.short = true ∧ ¬l.Padded := by
  by_cases hr : l.radix = .decimal
  · simp only [short, Padded, hr, true_and, decide_eq_true_eq]
    omega
  · have hshort : l.short = true ↔ l.digits.length ≤ l.radix.byteDigits := by
      cases h : l.radix <;> simp_all [short]
    rw [hshort, and_iff_left_of_imp (value_le_of_length hr)]
    simp [Padded, hr]

theorem short_of_padded {l : Unsigned} (h : l.Padded) : l.short = true := by
  obtain ⟨hr, -, hvalue⟩ := h
  simpa only [short, hr, decide_eq_true_eq] using hvalue

end Unsigned

/-- An unsigned number of at most sixteen bits is always taken for a word by loose reading. It is
taken either for a byte or for a strict word, and not for both, unless it is padded: then it is
neither. -/
theorem byte_or_word_iff {l : Unsigned} {v : Int} (named : Bool)
    (hnumber : number? l.text = .ok (some v)) (hv : v ≤ 0xFFFF) :
    v = l.value ∧ wordTerm? true named l.text = .ok (some (.number l.value)) ∧
    ((byteTerm? l.text = some (.number l.value) ∧ wordTerm? false named l.text = .ok none ∨
        byteTerm? l.text = none ∧
          wordTerm? false named l.text = .ok (some (.number l.value))) ↔ ¬l.Padded) ∧
    (l.Padded → byteTerm? l.text = none ∧ wordTerm? false named l.text = .ok none) := by
  obtain ⟨rfl, hdecimal⟩ := Unsigned.number?_text hnumber
  have hword : l.value ≤ 0xFFFF := by omega
  have hloose : wordTerm? true named l.text = .ok (some (.number l.value)) := by
    simp [Unsigned.wordTerm?_text true named hdecimal, wordNumber?, hword]
  by_cases hshort : l.short = true
  · have hstrict : wordTerm? false named l.text = .ok none := by
      simp [Unsigned.wordTerm?_text false named hdecimal, wordNumber?, hshort]
    by_cases hpad : l.Padded
    · have hbyte : byteTerm? l.text = none := by
        rw [l.byteTerm?_text, if_neg fun h => (l.byte_iff_short.mp h).2 hpad]
      simp [hloose, hstrict, hbyte, hpad]
    · have hbyte : byteTerm? l.text = some (.number l.value) := by
        rw [l.byteTerm?_text, if_pos (l.byte_iff_short.mpr ⟨hshort, hpad⟩)]
      simp [hloose, hstrict, hbyte, hpad]
  · have hstrict : wordTerm? false named l.text = .ok (some (.number l.value)) := by
      simp [Unsigned.wordTerm?_text false named hdecimal, wordNumber?, hword, hshort]
    have hbyte : byteTerm? l.text = none := by
      rw [l.byteTerm?_text, if_neg fun h => hshort (l.byte_iff_short.mp h).1]
    have hpad : ¬l.Padded := fun h => hshort (Unsigned.short_of_padded h)
    simp [hloose, hstrict, hbyte, hpad]

def wideByte : Unsigned where
  radix := .hexadecimal
  mark := ['0', 'x']
  digits := ['0', '0', 'F', 'F']
  mark_mem := by decide
  digits_ne_nil := by decide
  isDigit_of_mem := List.all_eq_true.mp (by decide)

theorem wideByte_word : number? wideByte.text = .ok (some 0xFF) ∧
    wordTerm? true true wideByte.text = .ok (some (.number 0xFF)) ∧
    byteTerm? wideByte.text = none ∧
    wordTerm? false true wideByte.text = .ok (some (.number 0xFF)) := by
  have hnumber : number? wideByte.text = .ok (some 0xFF) := eq_ok_of_toOption (by decide +kernel)
  have hpad : ¬wideByte.Padded := fun h => by simp [Unsigned.Padded, wideByte] at h
  obtain ⟨-, hloose, hone, -⟩ := byte_or_word_iff true hnumber (by decide)
  refine ⟨hnumber, hloose, ?_⟩
  rcases hone.mpr hpad with ⟨hbyte, -⟩ | hword
  · exact absurd hbyte (by decide +kernel)
  · exact hword

/-- A byte with a leading zero too many is neither a byte nor a word, though it is a number. -/
theorem paddedByte_refused : number? "0255".toList = .ok (some 255) ∧
    byteTerm? "0255".toList = none ∧ wordTerm? false true "0255".toList = .ok none := by
  refine ⟨eq_ok_of_toOption ?_, ?_, eq_ok_of_toOption ?_⟩ <;> decide +kernel

end Toolchain6502.Assembly
