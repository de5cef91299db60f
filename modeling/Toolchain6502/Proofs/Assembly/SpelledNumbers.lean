import Mathlib.Data.List.Induction
import Toolchain6502.Proofs.Assembly.UnvaluedNumerals

namespace Toolchain6502.Assembly

open Text

def isDecimal (c : Char) : Bool := (decimalValue? c).isSome

def runValue? (run : List Char) : Option Nat :=
  if run.all isDecimal then some ((run.filterMap decimalValue?).foldl (fun n d => n * 10 + d) 0)
  else none

def hexMarks : List (List Char) := [['$'], ['0', 'x'], ['0', 'X']]

def binaryMarks : List (List Char) := [['%'], ['0', 'b'], ['0', 'B']]

/-- A text that stands for a number. Text in single quotes stands for the code of its first
character, and a minus sign goes with ASCII digits. -/
inductive Spelled : List Char → Int → Prop
  | hex {mark ds : List Char} (hmark : mark ∈ hexMarks) (hne : ds ≠ [])
      (hds : ∀ c ∈ ds, isHexDigit c = true) : Spelled (mark ++ ds) (positional 16 ds)
  | binary {mark ds : List Char} (hmark : mark ∈ binaryMarks) (hne : ds ≠ [])
      (hds : ∀ c ∈ ds, isBinaryDigit c = true) : Spelled (mark ++ ds) (positional 2 ds)
  | decimal {run : List Char} {n : Nat} (hne : run ≠ []) (h : runValue? run = some n) :
      Spelled run n
  | minus {ds : List Char} (hne : ds ≠ []) (hds : ∀ c ∈ ds, c.isDigit = true) :
      Spelled ('-' :: ds) (-positional 10 ds)
  | quoted {c : Char} {rest : List Char} (hc : c ≠ '\'') (hrest : '\'' ∉ rest) :
      Spelled ('\'' :: c :: (rest ++ ['\''])) c.toNat

theorem runValue?_of_isDigit {ds : List Char} (h : ∀ c ∈ ds, c.isDigit = true) :
    runValue? ds = some (positional 10 ds) := by
  have hvalue {c : Char} (hc : c ∈ ds) : decimalValue? c = some (digitValue c) := by
    rw [decimalValue?_of_isDigit (h c hc), digitValue, if_pos (h c hc)]
  have hall : ds.all isDecimal = true :=
    List.all_eq_true.mpr fun c hc => by rw [isDecimal, hvalue hc, Option.isSome_some]
  have hvalues : ds.filterMap decimalValue? = ds.map digitValue := by
    rw [← List.filterMap_eq_map]
    exact List.filterMap_congr fun c hc => hvalue hc
  rw [runValue?, if_pos hall, hvalues, List.foldl_map]
  rfl

theorem isRun_of_runValue? {run : List Char} {n : Nat} (hne : run ≠ [])
    (h : runValue? run = some n) : IsRun run := by
  unfold runValue? at h
  split_ifs at h with hall
  refine ⟨hne, fun c hc => ?_⟩
  have hdecimal : (decimalValue? c).isSome = true := List.all_eq_true.mp hall c hc
  rw [isDigit, hdecimal, Bool.true_or]

theorem runValue?_of_decimal {run : List Char} {n : Nat} (h : decimal run = .ok n) :
    runValue? run = some n := by
  unfold decimal at h
  simp only [length_filterMap_takeWhile] at h
  split_ifs at h with hlong hother
  have hfull : run.takeWhile (fun c => (decimalValue? c).isSome) = run :=
    (List.takeWhile_prefix _).eq_of_length_le (Nat.le_of_not_lt hother)
  have hall : run.all isDecimal = true :=
    List.all_eq_true.mpr (List.takeWhile_eq_self_iff.mp hfull)
  rw [hfull] at h
  rw [runValue?, if_pos hall, Except.ok.inj h]

theorem positional_lt {base : Nat} {ds : List Char} (h : ∀ c ∈ ds, digitValue c < base) :
    positional base ds < base ^ ds.length := by
  induction ds using List.reverseRecOn with
  | nil => simp [positional]
  | append_singleton ds c ih =>
    have hc : digitValue c < base := h c (by simp)
    have hds : positional base ds < base ^ ds.length := ih fun d hd => h d (by simp [hd])
    rw [positional_concat, List.length_append, List.length_singleton, Nat.pow_succ]
    calc positional base ds * base + digitValue c
        < positional base ds * base + base := by omega
      _ = (positional base ds + 1) * base := by rw [Nat.add_mul, Nat.one_mul]
      _ ≤ base ^ ds.length * base := Nat.mul_le_mul_right _ hds

theorem digitValue_of_isHexDigit {c : Char} (h : isHexDigit c = true) : digitValue c < 16 := by
  have hrange : (48 ≤ c.toNat ∧ c.toNat ≤ 57) ∨ (97 ≤ c.toNat ∧ c.toNat ≤ 102) ∨
      (65 ≤ c.toNat ∧ c.toNat ≤ 70) := by
    simp only [isHexDigit, Bool.or_eq_true, Bool.and_eq_true, decide_eq_true_eq,
      Char.isDigit_iff_toNat] at h
    exact or_assoc.mp h
  have hlower : ('a' ≤ c && c ≤ 'f') = true ↔ 97 ≤ c.toNat ∧ c.toNat ≤ 102 := by
    rw [Bool.and_eq_true, decide_eq_true_eq, decide_eq_true_eq]
    exact Iff.rfl
  have hcodes : '0'.toNat = 48 ∧ '9'.toNat = 57 ∧ 'a'.toNat = 97 ∧ 'A'.toNat = 65 := by decide
  unfold digitValue
  simp only [Char.isDigit_iff_toNat, hlower]
  split_ifs <;> omega

theorem digitValue_of_isBinaryDigit {c : Char} (h : isBinaryDigit c = true) : digitValue c < 2 := by
  simp only [isBinaryDigit, Bool.or_eq_true, decide_eq_true_eq] at h
  rcases h with rfl | rfl <;> decide

theorem hexLiteral?_eq_some_iff {ds : List Char} {l : Literal} : hexLiteral? ds = some l ↔
    ds ≠ [] ∧ (∀ c ∈ ds, isHexDigit c = true) ∧ l = .hex ds := by
  simp [hexLiteral?, and_assoc, @eq_comm _ l]

theorem binaryLiteral?_eq_some_iff {ds : List Char} {l : Literal} : binaryLiteral? ds = some l ↔
    ds ≠ [] ∧ (∀ c ∈ ds, isBinaryDigit c = true) ∧ l = .binary ds := by
  simp [binaryLiteral?, and_assoc, @eq_comm _ l]

theorem decimalLiteral?_eq_some_iff {minus : Bool} {ds : List Char} {l : Literal} :
    decimalLiteral? minus ds = some l ↔
      ds ≠ [] ∧ (∀ c ∈ ds, c.isDigit = true) ∧ l = .decimal minus ds := by
  simp [decimalLiteral?, and_assoc, @eq_comm _ l]

theorem quotedLiteral?_eq_some_iff {rest : List Char} {l : Literal} :
    quotedLiteral? rest = some l ↔ ∃ c text, c ≠ '\'' ∧ '\'' ∉ text ∧
      rest = c :: (text ++ ['\'']) ∧ l = .quoted c := by
  unfold quotedLiteral?
  constructor
  · intro h
    split at h
    · rename_i c text hspan
      rw [List.span_eq_takeWhile_dropWhile] at hspan
      obtain ⟨hfront, hback⟩ := Prod.mk.inj hspan
      have hfree : ∀ d ∈ c :: text, d ≠ '\'' := by
        intro d hd
        rw [← hfront] at hd
        simpa using List.mem_takeWhile_imp hd
      refine ⟨c, text, hfree c List.mem_cons_self, ?_, ?_, (Option.some.inj h).symm⟩
      · exact fun hmem => hfree _ (List.mem_cons_of_mem c hmem) rfl
      · rw [← List.cons_append, ← hfront, ← hback, List.takeWhile_append_dropWhile]
    · simp at h
  · rintro ⟨c, text, hc, htext, rfl, rfl⟩
    have hspan : (c :: text ++ ['\'']).span (· ≠ '\'') = (c :: text, ['\'']) := by
      refine span_append (fun d hd => ?_) (by simp)
      rcases List.mem_cons.mp hd with rfl | hd
      · simpa using hc
      · simp only [decide_eq_true_eq]
        rintro rfl
        exact htext hd
    rw [← List.cons_append, hspan]
    rfl

inductive Literal.Written : Literal → List Char → Prop
  | hex {mark ds : List Char} (hmark : mark ∈ hexMarks) (hne : ds ≠ [])
      (hds : ∀ c ∈ ds, isHexDigit c = true) : Written (.hex ds) (mark ++ ds)
  | binary {mark ds : List Char} (hmark : mark ∈ binaryMarks) (hne : ds ≠ [])
      (hds : ∀ c ∈ ds, isBinaryDigit c = true) : Written (.binary ds) (mark ++ ds)
  | decimal {ds : List Char} (hne : ds ≠ []) (hds : ∀ c ∈ ds, c.isDigit = true) :
      Written (.decimal false ds) ds
  | minus {ds : List Char} (hne : ds ≠ []) (hds : ∀ c ∈ ds, c.isDigit = true) :
      Written (.decimal true ds) ('-' :: ds)
  | digits {run : List Char} (hrun : IsRun run) : Written (.digits run) run
  | quoted {c : Char} {rest : List Char} (hc : c ≠ '\'') (hrest : '\'' ∉ rest) :
      Written (.quoted c) ('\'' :: c :: (rest ++ ['\'']))
  | symbol {name : List Char} (hname : isSymbol name = true) : Written (.symbol name) name

theorem written_of_plainLiteral? {text : List Char} {l : Literal}
    (h : plainLiteral? text = some l) : l.Written text := by
  unfold plainLiteral? at h
  split_ifs at h with hsymbol hempty hascii hdigits
  · exact Option.some.inj h ▸ .symbol hsymbol
  · exact Option.some.inj h ▸ .decimal (by simpa using hempty) (List.all_eq_true.mp hascii)
  · exact Option.some.inj h ▸ .digits ⟨by simpa using hempty, List.all_eq_true.mp hdigits⟩

theorem written_of_read? {text : List Char} {l : Literal} (h : Literal.read? text = some l) :
    l.Written text := by
  have hhex (mark : List Char) {ds : List Char} (hmark : mark ∈ hexMarks)
      (h : hexLiteral? ds = some l) : l.Written (mark ++ ds) := by
    obtain ⟨hne, hds, rfl⟩ := hexLiteral?_eq_some_iff.mp h
    exact .hex hmark hne hds
  have hbinary (mark : List Char) {ds : List Char} (hmark : mark ∈ binaryMarks)
      (h : binaryLiteral? ds = some l) : l.Written (mark ++ ds) := by
    obtain ⟨hne, hds, rfl⟩ := binaryLiteral?_eq_some_iff.mp h
    exact .binary hmark hne hds
  unfold Literal.read? at h
  split at h
  case h_1 => exact hhex ['$'] (by decide) h
  case h_2 => exact hhex ['0', 'x'] (by decide) h
  case h_3 => exact hhex ['0', 'X'] (by decide) h
  case h_4 => exact hbinary ['%'] (by decide) h
  case h_5 => exact hbinary ['0', 'b'] (by decide) h
  case h_6 => exact hbinary ['0', 'B'] (by decide) h
  case h_7 =>
    obtain ⟨hne, hds, rfl⟩ := decimalLiteral?_eq_some_iff.mp h
    exact .minus hne hds
  case h_8 =>
    obtain ⟨c, rest, hc, hrest, rfl, rfl⟩ := quotedLiteral?_eq_some_iff.mp h
    exact .quoted hc hrest
  case h_9 => exact written_of_plainLiteral? h

def Literal.value? : Literal → Option Int
  | .hex ds => some (positional 16 ds)
  | .binary ds => some (positional 2 ds)
  | .decimal minus ds => some (if minus then -positional 10 ds else positional 10 ds)
  | .digits run => (runValue? run).map Int.ofNat
  | .quoted c => some c.toNat
  | .symbol _ => none

theorem Spelled.read? {text : List Char} {v : Int} (h : Spelled text v) :
    ∃ l, Literal.read? text = some l ∧ l.value? = some v := by
  cases h with
  | @hex mark ds hmark hne hds =>
    refine ⟨.hex ds, ?_, rfl⟩
    have hread := hexLiteral?_eq_some_iff.mpr ⟨hne, hds, rfl⟩
    simp only [hexMarks, List.mem_cons, List.not_mem_nil, or_false] at hmark
    rcases hmark with rfl | rfl | rfl <;> exact hread
  | @binary mark ds hmark hne hds =>
    refine ⟨.binary ds, ?_, rfl⟩
    have hread := binaryLiteral?_eq_some_iff.mpr ⟨hne, hds, rfl⟩
    simp only [binaryMarks, List.mem_cons, List.not_mem_nil, or_false] at hmark
    rcases hmark with rfl | rfl | rfl <;> exact hread
  | @decimal _ n hne h =>
    refine ⟨_, (isRun_of_runValue? hne h).read?, ?_⟩
    split_ifs with hascii
    · rw [runValue?_of_isDigit (List.all_eq_true.mp hascii)] at h
      simp [Literal.value?, Option.some.inj h]
    · simp [Literal.value?, h]
  | minus hne hds => exact ⟨_, decimalLiteral?_eq_some_iff.mpr ⟨hne, hds, rfl⟩, rfl⟩
  | quoted hc hrest => exact ⟨_, quotedLiteral?_eq_some_iff.mpr ⟨_, _, hc, hrest, rfl, rfl⟩, rfl⟩

theorem Spelled.unique {text : List Char} {v w : Int} (hv : Spelled text v) (hw : Spelled text w) :
    v = w := by
  obtain ⟨l, hl, hv⟩ := hv.read?
  obtain ⟨l', hl', hw⟩ := hw.read?
  obtain rfl : l = l' := Option.some.inj (hl.symm.trans hl')
  exact Option.some.inj (hv.symm.trans hw)

theorem Spelled.not_symbol {text : List Char} {v : Int} (h : Spelled text v) :
    isSymbol text = false := by
  rw [Bool.eq_false_iff]
  intro hsymbol
  obtain ⟨l, hl, hv⟩ := h.read?
  rw [read?_symbol hsymbol] at hl
  obtain rfl := Option.some.inj hl
  simp [Literal.value?] at hv

def Term.number? : Term → Option Int
  | .number n => some n
  | .minus n => some (-n)
  | .symbol _ | .half _ _ => none

theorem byteTerm?_eq_some {text : List Char} {t : Term} (h : byteTerm? text = some t) :
    (isSymbol text = true ∧ t = .symbol (String.ofList text)) ∨
      ∃ v, Spelled text v ∧ t.number? = some v ∧ -0xFF ≤ v ∧ v ≤ 0xFF := by
  obtain ⟨l, hread, hbyte⟩ := Option.bind_eq_some_iff.mp h
  have hwritten := written_of_read? hread
  have hpower {base k : Nat} {ds : List Char} (hbase : base ^ k = 0x100) (hpos : 0 < base)
      (hds : ∀ c ∈ ds, digitValue c < base) (hlength : ds.length ≤ k) :
      positional base ds ≤ 0xFF := by
    have hlt := positional_lt hds
    have hle := Nat.pow_le_pow_right hpos hlength
    omega
  cases hwritten with
  | @hex mark ds hmark hne hds =>
    simp only [Literal.byte?] at hbyte
    split_ifs at hbyte with hlength
    have hdigits := fun c hc => digitValue_of_isHexDigit (hds c hc)
    have hle := hpower (by rfl) (by decide) hdigits hlength
    exact .inr ⟨_, .hex hmark hne hds, Option.some.inj hbyte ▸ rfl, by omega, by omega⟩
  | @binary mark ds hmark hne hds =>
    simp only [Literal.byte?] at hbyte
    split_ifs at hbyte with hlength
    have hdigits := fun c hc => digitValue_of_isBinaryDigit (hds c hc)
    have hle := hpower (by rfl) (by decide) hdigits hlength
    exact .inr ⟨_, .binary hmark hne hds, Option.some.inj hbyte ▸ rfl, by omega, by omega⟩
  | decimal hne hds =>
    simp only [Literal.byte?, Bool.and_eq_true, decide_eq_true_eq, Bool.false_eq_true, if_false]
      at hbyte
    split_ifs at hbyte with hsmall
    exact .inr ⟨_, .decimal hne (runValue?_of_isDigit hds), Option.some.inj hbyte ▸ rfl, by omega,
      by omega⟩
  | minus hne hds =>
    simp only [Literal.byte?, Bool.and_eq_true, decide_eq_true_eq, if_true] at hbyte
    split_ifs at hbyte with hsmall
    exact .inr ⟨_, .minus hne hds, Option.some.inj hbyte ▸ rfl, by omega, by omega⟩
  | digits hrun => simp [Literal.byte?] at hbyte
  | quoted hc hrest =>
    simp only [Literal.byte?] at hbyte
    split_ifs at hbyte with hsmall
    exact .inr ⟨_, .quoted hc hrest, Option.some.inj hbyte ▸ rfl, by omega, by omega⟩
  | symbol hname => exact .inl ⟨hname, (Option.some.inj hbyte).symm⟩

theorem wordNumber?_eq_some {short loose : Bool} {n : Nat} {t : Term}
    (h : wordNumber? short loose n = some t) : t = .number n ∧ n ≤ 0xFFFF := by
  unfold wordNumber? at h
  split_ifs at h with hword
  rw [Bool.and_eq_true, decide_eq_true_eq] at hword
  exact ⟨(Option.some.inj h).symm, hword.1⟩

theorem wordTerm?_eq_some {loose named : Bool} {text : List Char} {t : Term}
    (h : wordTerm? loose named text = .ok (some t)) :
    (isSymbol text = true ∧ t = .symbol (String.ofList text)) ∨
      ∃ v, Spelled text v ∧ t.number? = some v ∧ 0 ≤ v ∧ v ≤ 0xFFFF := by
  have hnumber {short : Bool} {n : Nat} (hspelled : Spelled text n)
      (h : wordNumber? short loose n = some t) :
      ∃ v, Spelled text v ∧ t.number? = some v ∧ 0 ≤ v ∧ v ≤ 0xFFFF := by
    obtain ⟨rfl, hn⟩ := wordNumber?_eq_some h
    exact ⟨n, hspelled, rfl, by omega, by omega⟩
  unfold wordTerm? at h
  split at h
  · rename_i l hread
    cases written_of_read? hread with
    | hex hmark hne hds => exact .inr (hnumber (.hex hmark hne hds) (Except.ok.inj h))
    | binary hmark hne hds => exact .inr (hnumber (.binary hmark hne hds) (Except.ok.inj h))
    | decimal hne hds =>
      obtain ⟨n, hn, h⟩ := bind_eq_ok.mp h
      exact .inr (hnumber (.decimal hne (runValue?_of_decimal hn)) (Except.ok.inj h))
    | digits hrun =>
      obtain ⟨n, hn, h⟩ := bind_eq_ok.mp h
      exact .inr (hnumber (.decimal hrun.1 (runValue?_of_decimal hn)) (Except.ok.inj h))
    | minus hne hds => simp [Literal.word?] at h
    | quoted hc hrest => simp [Literal.word?] at h
    | symbol hname =>
      cases named with
      | false => simp [Literal.word?] at h
      | true => exact .inl ⟨hname, (Option.some.inj (Except.ok.inj h)).symm⟩
  · simp at h

end Toolchain6502.Assembly
