import Mathlib.Algebra.Group.Nat.Defs
import Mathlib.Data.List.Basic
import Mathlib.Data.List.TakeDrop
import Mathlib.Data.List.TakeWhile
import Mathlib.Tactic.Common
import Toolchain6502.Text.Blank
import Toolchain6502.Text.Lines
import Toolchain6502.Text.Numeral

namespace Toolchain6502.Text

theorem upperHexDigit {d : Nat} (hd : d < 16) :
    isHexDigit d.digitChar.toUpper = true ∧ digitValue d.digitChar.toUpper = d := by
  revert d
  decide

theorem upperHex_eq (n : Nat) :
    upperHex n =
      (if n < 16 then [] else upperHex (n / 16)) ++ [(n % 16).digitChar.toUpper] := by
  unfold upperHex
  rw [Nat.toDigits_eq_if (by omega)]
  split
  · rename_i hn
    simp [Nat.mod_eq_of_lt hn]
  · simp

theorem isHexDigit_of_mem_upperHex {n : Nat} {c : Char} (hc : c ∈ upperHex n) :
    isHexDigit c = true := by
  induction n using Nat.strongRecOn with
  | ind n ih =>
    rw [upperHex_eq, List.mem_append, List.mem_singleton] at hc
    rcases hc with hc | rfl
    · split at hc
      · simp at hc
      · exact ih (n / 16) (by omega) hc
    · exact (upperHexDigit (Nat.mod_lt n (by omega))).1

theorem positional_concat (base : Nat) (ds : List Char) (c : Char) :
    positional base (ds ++ [c]) = positional base ds * base + digitValue c := by
  simp [positional]

theorem positional_upperHex (n : Nat) : positional 16 (upperHex n) = n := by
  induction n using Nat.strongRecOn with
  | ind n ih =>
    rw [upperHex_eq, positional_concat, (upperHexDigit (Nat.mod_lt n (by omega))).2]
    split
    · simp only [positional, List.foldl_nil]
      omega
    · rw [ih (n / 16) (by omega)]
      omega

theorem length_upperHex_le_iff {n w : Nat} (hw : 0 < w) : (upperHex n).length ≤ w ↔ n < 16 ^ w := by
  rw [upperHex, List.length_map]
  exact Nat.length_toDigits_le_iff (by omega) hw

theorem mem_hex {w : Nat} {v : Int} {c : Char} (hc : c ∈ (hex w v).toList) :
    c = '-' ∨ isHexDigit c = true := by
  simp only [hex, String.toList_ofList, List.mem_append] at hc
  rcases hc with (hc | hc) | hc
  · split at hc
    · exact .inl (List.mem_singleton.mp hc)
    · simp at hc
  · rw [List.eq_of_mem_replicate hc]
    exact .inr rfl
  · exact .inr (isHexDigit_of_mem_upperHex hc)

theorem isDigit_of_mem_decimalDigits (n : Nat) : ∀ c ∈ Nat.toDigits 10 n, c.isDigit = true :=
  fun _ hc => Nat.isDigit_of_mem_toDigits (by decide) (by decide) hc

theorem isHexDigit_of_mem_hex {w n : Nat} {c : Char} (hc : c ∈ (hex w n).toList) :
    isHexDigit c = true := by
  have hn : ¬ (n : Int) < 0 := by omega
  simp only [hex, hn, if_false, List.nil_append, String.toList_ofList, List.mem_append] at hc
  rcases hc with hc | hc
  · rw [List.eq_of_mem_replicate hc]
    rfl
  · exact isHexDigit_of_mem_upperHex hc

/-- A numeral without a sign spells its number, and is as wide as asked for or as its number
needs. -/
theorem hex_spells (w n : Nat) :
    positional 16 (hex w n).toList = n ∧
      (hex w n).toList.length = max w (upperHex n).length := by
  have hn : ¬ (n : Int) < 0 := by omega
  have htext : (hex w n).toList =
      List.replicate (w - (upperHex n).length) '0' ++ upperHex n := by
    simp [hex, hn]
  rw [htext]
  constructor
  · have hzeros (k : Nat) : positional 16 (List.replicate k '0') = 0 := by
      induction k with
      | zero => rfl
      | succ k ih =>
        rw [List.replicate_succ', positional_concat, ih]
        rfl
    have hdigits := positional_upperHex n
    unfold positional at hzeros hdigits ⊢
    rw [List.foldl_append, hzeros, hdigits]
  · rw [List.length_append, List.length_replicate]
    omega

theorem hex_of_neg (w : Nat) {n : Int} (hn : n < 0) : ∃ ds, (hex w n).toList = '-' :: ds := by
  simp [hex, hn]

theorem decimalValue?_of_isDigit {c : Char} (hc : c.isDigit = true) :
    decimalValue? c = some (c.toNat - '0'.toNat) := by
  have hrange : 48 ≤ c.toNat ∧ c.toNat ≤ 57 := Char.isDigit_iff_toNat.mp hc
  have hzero : decimalZeros.find? (fun z => z ≤ c.toNat && c.toNat < z + 10) = some 0x30 := by
    apply List.find?_cons_of_pos
    simp only [Bool.and_eq_true, decide_eq_true_eq]
    omega
  rw [decimalValue?, hzero]
  rfl

theorem decimal_of_isDigit {ds : List Char} (hds : ∀ c ∈ ds, c.isDigit = true)
    (hlength : ds.length ≤ maxDecimalDigits) : decimal ds = .ok (Nat.ofDigitChars 10 ds 0) := by
  have hall : ds.takeWhile (fun c => (decimalValue? c).isSome) = ds := by
    rw [List.takeWhile_eq_self_iff]
    intro c hc
    rw [decimalValue?_of_isDigit (hds c hc)]
    rfl
  have hvalues : ds.filterMap decimalValue? = ds.map fun c => c.toNat - '0'.toNat := by
    rw [← List.filterMap_eq_map]
    exact List.filterMap_congr fun c hc => decimalValue?_of_isDigit (hds c hc)
  simp only [decimal, hall, hvalues, List.length_map, List.foldl_map]
  rw [if_neg (by omega), if_neg (by omega)]
  simp only [Nat.mul_comm _ 10]
  rfl

/-- A number that is short enough is read back from its digits. -/
theorem decimal_toDigits {n : Nat} (hn : n < 10 ^ maxDecimalDigits) :
    decimal (Nat.toDigits 10 n) = .ok n := by
  have hlength : (Nat.toDigits 10 n).length ≤ maxDecimalDigits :=
    (Nat.length_toDigits_le_iff (by decide) (by decide)).mpr hn
  rw [decimal_of_isDigit (fun c => Nat.isDigit_of_mem_toDigits (by decide) (by decide)) hlength,
    Nat.ofDigitChars_ten_toDigits]

theorem isBreak_of_mem_splitLines {cs line : List Char} {c : Char} (hline : line ∈ splitLines cs)
    (hc : c ∈ line) : isBreak c = false := by
  induction cs using splitLines.induct generalizing line with
  | case1 => simp [splitLines] at hline
  | case2 cs ih =>
    rw [splitLines] at hline
    rcases List.mem_cons.mp hline with rfl | hline
    · simp at hc
    · exact ih hline hc
  | case3 d cs hcr hbreak ih =>
    rw [splitLines, if_pos hbreak] at hline
    · rcases List.mem_cons.mp hline with rfl | hline
      · simp at hc
      · exact ih hline hc
    · exact hcr
  | case4 d cs hcr hbreak hnil ih =>
    rw [splitLines, if_neg hbreak, hnil] at hline
    · rw [List.mem_singleton.mp hline, List.mem_singleton] at hc
      simpa [hc] using hbreak
    · exact hcr
  | case5 d cs hcr hbreak first rest hcons ih =>
    rw [splitLines, if_neg hbreak, hcons] at hline
    · rcases List.mem_cons.mp hline with rfl | hline
      · rcases List.mem_cons.mp hc with rfl | hc
        · simpa using hbreak
        · exact ih (hcons ▸ List.mem_cons_self) hc
      · exact ih (hcons ▸ List.mem_cons_of_mem first hline) hc
    · exact hcr

theorem isBreak_of_mem_lines {text line : String} {c : Char} (hline : line ∈ lines text)
    (hc : c ∈ line.toList) : isBreak c = false := by
  obtain ⟨cs, hcs, rfl⟩ := List.mem_map.mp hline
  rw [String.toList_ofList] at hc
  exact isBreak_of_mem_splitLines hcs hc

theorem splitLines_append_break {line : List Char} (hline : ∀ c ∈ line, isBreak c = false)
    (rest : List Char) : splitLines (line ++ '\n' :: rest) = line :: splitLines rest := by
  induction line with
  | nil => rfl
  | cons c line ih =>
    have hc : isBreak c = false := hline c List.mem_cons_self
    have hne : c ≠ '\r' := by
      rintro rfl
      exact absurd hc (by decide)
    rw [List.cons_append, splitLines]
    · simp [hc, ih fun d hd => hline d (List.mem_cons_of_mem c hd)]
    · intro cs hcr _
      exact hne hcr

theorem lines_join {ls : List String} (hls : ∀ l ∈ ls, ∀ c ∈ l.toList, isBreak c = false) :
    lines (String.join (ls.map fun l => l ++ "\n")) = ls := by
  induction ls with
  | nil => rfl
  | cons l ls ih =>
    have hjoin : (String.join ((l :: ls).map fun l => l ++ "\n")).toList =
        l.toList ++ '\n' :: (String.join (ls.map fun l => l ++ "\n")).toList := by
      simp [String.toList_join]
    have hrest := ih fun l' hl' => hls l' (List.mem_cons_of_mem l hl')
    unfold lines at hrest ⊢
    rw [hjoin, splitLines_append_break (hls l List.mem_cons_self), List.map_cons, hrest,
      String.ofList_toList]

theorem splitLines_of_unbroken {line : List Char} (hline : ∀ c ∈ line, isBreak c = false)
    (hne : line ≠ []) : splitLines line = [line] := by
  induction line with
  | nil => exact absurd rfl hne
  | cons c line ih =>
    obtain ⟨hc, hrest⟩ := List.forall_mem_cons.mp hline
    rw [splitLines, if_neg (by simp [hc])]
    · cases line with
      | nil => rfl
      | cons d line => rw [ih hrest (by simp)]
    · rintro cs rfl _
      exact absurd hc (by decide)

theorem lines_intercalate {ls : List String} (hls : ∀ l ∈ ls, ∀ c ∈ l.toList, isBreak c = false)
    (hlast : ∀ l ∈ ls.getLast?, l ≠ "") : lines ("\n".intercalate ls) = ls := by
  induction ls with
  | nil => rfl
  | cons l ls ih =>
    obtain ⟨hl, hrest⟩ := List.forall_mem_cons.mp hls
    unfold lines at ih ⊢
    rw [String.toList_intercalate] at ih ⊢
    cases ls with
    | nil =>
      have hne : l.toList ≠ [] := by simpa using hlast l rfl
      rw [List.map_singleton, List.intercalate_singleton, splitLines_of_unbroken hl hne,
        List.map_singleton, String.ofList_toList]
    | cons next ls =>
      have htext : "\n".toList.intercalate ((l :: next :: ls).map String.toList) =
          l.toList ++ '\n' :: "\n".toList.intercalate ((next :: ls).map String.toList) := by
        rw [List.map_cons, List.map_cons, List.intercalate_cons_cons, List.append_assoc]
        rfl
      rw [htext, splitLines_append_break hl, List.map_cons, String.ofList_toList,
        ih hrest (by simpa using hlast)]

theorem trimLeft_blanks_append {blanks : List Char} {c : Char} {cs : List Char}
    (hblanks : ∀ b ∈ blanks, isBlank b = true) (hc : isBlank c = false) :
    trimLeft (blanks ++ c :: cs) = c :: cs := by
  unfold trimLeft
  rw [List.dropWhile_append_of_pos hblanks, List.dropWhile_cons_of_neg (by simp [hc])]

theorem trimRight_concat {cs : List Char} {c : Char} (hc : isBlank c = false) :
    trimRight (cs ++ [c]) = cs ++ [c] := by
  simp [trimRight, hc]

theorem span_append {p : Char → Bool} {word rest : List Char} (hword : ∀ c ∈ word, p c = true)
    (hrest : ∀ c ∈ rest.head?, p c = false) : (word ++ rest).span p = (word, rest) := by
  rw [List.span_eq_takeWhile_dropWhile, List.takeWhile_append_of_pos hword,
    List.dropWhile_append_of_pos hword]
  cases rest with
  | nil => simp
  | cons c rest =>
    have hc : p c = false := hrest c rfl
    simp [hc]

end Toolchain6502.Text
