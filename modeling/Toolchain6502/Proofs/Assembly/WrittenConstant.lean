import Toolchain6502.Assembly.Session
import Toolchain6502.Proofs.Assembly.Acceptance
import Toolchain6502.Proofs.Assembly.UnvaluedNumerals

namespace Toolchain6502.Assembly

open Text

/-- A text that stands for a number as the value of a constant. -/
structure Spells (value : List Char) (n : Nat) : Prop where
  ne_nil : value ≠ []
  ink : ∀ c ∈ value, isInk c = true
  number : number? value = .ok (some (n : Int))

theorem Spells.readConstantValue {value : List Char} {n : Nat} (h : Spells value n) :
    readConstantValue value = if n ≤ 0xFFFF then .ok (.number n)
      else .error (.fault { fault := .constantRange (String.ofList value) }) := by
  rw [Assembly.readConstantValue, h.number]
  by_cases hn : n ≤ 0xFFFF
  · have hrange : -0x80 ≤ (n : Int) ∧ (n : Int) ≤ 0xFFFF := by omega
    have hvalue : ((n : Int) % 0x10000).toNat = n := by omega
    simp [constantNumber, faultAs, hrange, hn, hvalue]
  · have hrange : ¬ (-0x80 ≤ (n : Int) ∧ (n : Int) ≤ 0xFFFF) := by omega
    rw [if_neg hn]
    simp only [constantNumber, if_neg hrange, faultAs]

theorem spells_hex (w n : Nat) : Spells ('$' :: (hex (w + 1) n).toList) n := by
  have hink : ∀ c ∈ '$' :: (hex (w + 1) n).toList, isInk c = true :=
    List.forall_mem_cons.mpr ⟨rfl, fun c hc => isInk_of_mem_hex hc⟩
  refine ⟨by simp, hink, ?_⟩
  rw [number?, trim_of_no_blank (by simp) fun c hc => isBlank_of_isInk (hink c hc)]
  simp [Literal.read?, hexLiteral?_natural, Literal.number?, (hex_spells (w + 1) n).1]

theorem isSymbolPart_of_isDigit {c : Char} (hc : c.isDigit = true) : isSymbolPart c = true := by
  simp [isSymbolPart, Char.isAlphanum, hc]

theorem spells_decimal {n : Nat} (hn : n < 10 ^ maxDecimalDigits) : Spells (Nat.toDigits 10 n) n := by
  have hdigits : ∀ c ∈ Nat.toDigits 10 n, c.isDigit = true :=
    fun c hc => Nat.isDigit_of_mem_toDigits (by decide) (by decide) hc
  have hrun : IsRun (Nat.toDigits 10 n) := ⟨by simp, fun c hc => isDigit_of_ascii (hdigits c hc)⟩
  refine ⟨hrun.1, fun c hc => isInk_of_isSymbolPart (isSymbolPart_of_isDigit (hdigits c hc)), ?_⟩
  rw [number?, hrun.trimmed.trim_eq, hrun.read?, if_pos (List.all_eq_true.mpr hdigits)]
  simp [Literal.number?, decimal_toDigits hn]

def constantWord : List Char := ['.', 'c', 'o', 'n', 's', 't']

def constantLine (name value : List Char) : List Char :=
  constantWord ++ ' ' :: (name ++ ' ' :: value)

theorem isConstantName_of_isSymbol {name : List Char} (h : isSymbol name = true) :
    isConstantName name = true := by
  cases name with
  | nil => simp [isSymbol] at h
  | cons c cs =>
    simp only [isSymbol, Bool.and_eq_true, List.all_eq_true] at h
    simp only [isConstantName, Bool.and_eq_true, Bool.or_eq_true, List.all_eq_true]
    exact ⟨.inl h.1, fun d hd => .inl (h.2 d hd)⟩

theorem plain_of_isConstantName {name : List Char} (hname : isConstantName name = true) {c : Char}
    (hc : c ∈ name) :
    isBlank c = false ∧ isBreak c = false ∧ c ≠ ';' ∧ c ≠ '\'' ∧ c ≠ '"' := by
  have hpart : isSymbolPart c = true ∨ isConstantLetter c = true := by
    cases name with
    | nil => simp at hc
    | cons first rest =>
      simp only [isConstantName, Bool.and_eq_true, Bool.or_eq_true, List.all_eq_true] at hname
      rcases List.mem_cons.mp hc with rfl | hc
      · apply hname.1.imp_left
        intro hstart
        have hsymbol : isSymbol [c] = true := by simp [isSymbol, hstart]
        exact isSymbolPart_of_mem hsymbol (List.mem_singleton_self c)
      · exact hname.2 c hc
  rcases hpart with hpart | hletter
  · have hink := isInk_of_isSymbolPart hpart
    have hunmarked : Unmarked [c] := unmarked_of_ink (by simp [hink])
    exact ⟨isBlank_of_isInk hink, isBreak_of_isInk hink, hunmarked c List.mem_cons_self⟩
  · simp only [isConstantLetter, Bool.or_eq_true, beq_iff_eq] at hletter
    have hmark (d : Char) (hd : d.toNat < 0x130) : c ≠ d := by
      rintro rfl
      omega
    refine ⟨?_, ?_, hmark _ (by decide), hmark _ (by decide), hmark _ (by decide)⟩
    · simp only [isBlank, Bool.or_eq_false_iff, Bool.and_eq_false_iff, decide_eq_false_iff_not,
        beq_eq_false_iff_ne]
      omega
    · simp only [isBreak, Bool.or_eq_false_iff, Bool.and_eq_false_iff, decide_eq_false_iff_not,
        beq_eq_false_iff_ne]
      omega

theorem splitLabel?_point (rest : List Char) : splitLabel? ('.' :: rest) = none := by
  have hnone : ∀ c ∈ ([] : List Char), isSymbolPart c = true := by simp
  have hspan : ('.' :: rest).span isSymbolPart = ([], '.' :: rest) :=
    span_append hnone (by simp [isSymbolPart])
  have hleft : trimLeft ('.' :: rest) = '.' :: rest := List.dropWhile_cons_of_neg (by decide)
  rw [splitLabel?, hspan]
  simp [hleft]

theorem readContents_of_constantWord {line rest : List Char}
    (h : trim (stripComment line) = constantWord ++ ' ' :: rest) :
    readContents line = do
      let content ← readConstant (' ' :: rest)
      return [content] := by
  have hsplit : splitLabel? (constantWord ++ ' ' :: rest) = none := splitLabel?_point _
  have hword : spanWord (constantWord ++ ' ' :: rest) = (constantWord, ' ' :: rest) :=
    span_append (List.all_eq_true.mp (by decide)) (by simp [isBlank])
  have hdirective : readDirective (constantWord ++ ' ' :: rest) = readConstant (' ' :: rest) := by
    have hlower : String.ofList (lower constantWord) = ".const" := by decide +kernel
    rw [readDirective, hword]
    exact if_pos hlower
  have hbody : readBody (constantWord ++ ' ' :: rest) = do
      let content ← readDirective (constantWord ++ ' ' :: rest)
      return [content] := rfl
  rw [readContents, h, hsplit]
  simp only [hbody, hdirective]

theorem splitConstant?_of_trimmed {name value : List Char} (hname : isConstantName name = true)
    (hne : value ≠ []) (hvalue : Trimmed value) (hbreak : '\n' ∉ value) :
    splitConstant? (' ' :: (name ++ ' ' :: value)) = some (name, value) := by
  have hblank {c : Char} (hc : c ∈ name) : isBlank c = false := (plain_of_isConstantName hname hc).1
  obtain ⟨c, cs, rfl⟩ : ∃ c cs, name = c :: cs := by
    cases name with
    | nil => simp [isConstantName] at hname
    | cons c cs => exact ⟨c, cs, rfl⟩
  have hspace : ∀ b ∈ [' '], isBlank b = true := by simp [isBlank]
  have hleft : trimLeft (' ' :: (c :: cs ++ ' ' :: value)) = c :: cs ++ ' ' :: value :=
    trimLeft_blanks_append hspace (hblank List.mem_cons_self)
  have hspan : spanWord (c :: cs ++ ' ' :: value) = (c :: cs, ' ' :: value) :=
    span_append (fun d hd => by simp [hblank hd]) (by simp [isBlank])
  have htrim : trim (' ' :: value) = value := by
    have hnone : ∀ b ∈ ([] : List Char), isBlank b = true := by simp
    have := hvalue.trim_append hne hspace hnone
    rwa [List.append_nil] at this
  simp only [splitConstant?, hleft, hspan, htrim]
  simp [hname, hne, hbreak]

theorem trimmed_constantLine (name : List Char) {value : List Char} {n : Nat}
    (hvalue : Spells value n) : Trimmed (constantLine name value) := by
  refine ⟨by simp [constantLine, constantWord, isBlank], ?_⟩
  intro c hc
  have hlast : (constantLine name value).getLast? = value.getLast? := by
    have hfront : constantLine name value = (constantWord ++ ' ' :: (name ++ [' '])) ++ value := by
      simp [constantLine]
    rw [hfront, List.getLast?_append_of_ne_nil _ hvalue.ne_nil]
  exact isBlank_of_isInk (hvalue.ink c (List.mem_of_getLast? (hlast ▸ hc)))

section

variable {name value : List Char} {n : Nat} (hname : isSymbol name = true) (hvalue : Spells value n)

include hname hvalue

theorem constantLine_ink : ∀ c ∈ constantLine name value, isInk c = true ∨ c = ' ' := by
  intro c hc
  simp only [constantLine, List.mem_append, List.mem_cons] at hc
  rcases hc with hc | rfl | hc | rfl | hc
  · have hword : ∀ c ∈ constantWord, isInk c = true := List.all_eq_true.mp (by decide)
    exact .inl (hword c hc)
  · exact .inr rfl
  · exact .inl (isInk_of_mem_symbol hname c hc)
  · exact .inr rfl
  · exact .inl (hvalue.ink c hc)

theorem splitConstant?_written :
    splitConstant? (' ' :: (name ++ ' ' :: value)) = some (name, value) := by
  have hnone : ∀ d ∈ value, isBlank d = false := fun d hd => isBlank_of_isInk (hvalue.ink d hd)
  refine splitConstant?_of_trimmed (isConstantName_of_isSymbol hname) hvalue.ne_nil ⟨?_, ?_⟩ ?_
  · exact fun d hd => hnone d (List.mem_of_mem_head? hd)
  · exact fun d hd => hnone d (List.mem_of_getLast? hd)
  · exact fun h => absurd (hnone _ h) (by decide)

theorem readContents_constantLine :
    readContents (constantLine name value) = if n ≤ 0xFFFF
      then .ok [.constant (String.ofList name) (.number n)]
      else .error (.fault { fault := .constantRange (String.ofList value) }) := by
  have htext : trim (stripComment (constantLine name value)) =
      constantWord ++ ' ' :: (name ++ ' ' :: value) := by
    rw [stripComment_eq (unmarked_of_ink (constantLine_ink hname hvalue)),
      (trimmed_constantLine name hvalue).trim_eq, constantLine]
  rw [readContents_of_constantWord htext]
  simp only [readConstant, splitConstant?_written hname hvalue, hvalue.readConstantValue]
  split <;> rfl

end

/-- Lines that define numbers under names, among lines that say nothing. -/
inductive DefinitionLines : List String → List (String × Nat) → Prop where
  | nil : DefinitionLines [] []
  | remark {line : String} {ls : List String} {ds : List (String × Nat)}
      (hline : readContents line.toList = .ok []) (hbreak : ∀ c ∈ line.toList, isBreak c = false)
      (h : DefinitionLines ls ds) : DefinitionLines (line :: ls) ds
  | define {line name : String} {value : List Char} {n : Nat} {ls : List String}
      {ds : List (String × Nat)} (hname : isSymbol name.toList = true) (hvalue : Spells value n)
      (hline : line.toList = constantLine name.toList value) (h : DefinitionLines ls ds) :
      DefinitionLines (line :: ls) ((name, n) :: ds)

theorem DefinitionLines.append {ls ls' : List String} {ds ds' : List (String × Nat)}
    (h : DefinitionLines ls ds) (h' : DefinitionLines ls' ds') :
    DefinitionLines (ls ++ ls') (ds ++ ds') := by
  induction h with
  | nil => exact h'
  | remark hline hbreak _ ih => exact .remark hline hbreak ih
  | define hname hvalue hline _ ih => exact .define hname hvalue hline ih

theorem DefinitionLines.isBreak_eq_false {ls : List String} {ds : List (String × Nat)}
    (h : DefinitionLines ls ds) : ∀ l ∈ ls, ∀ c ∈ l.toList, isBreak c = false := by
  induction h with
  | nil => simp
  | remark _ hbreak _ ih => exact List.forall_mem_cons.mpr ⟨hbreak, ih⟩
  | define hname hvalue hline _ ih =>
    refine List.forall_mem_cons.mpr ⟨fun c hc => ?_, ih⟩
    rw [hline] at hc
    rcases constantLine_ink hname hvalue c hc with hc | rfl
    · exact isBreak_of_isInk hc
    · rfl

def definition (d : String × Nat) : Content := .constant d.1 (.number d.2)

theorem readLinesFrom_definitions {ls : List String} {ds : List (String × Nat)}
    (h : DefinitionLines ls ds) (file : String) (number : Nat) :
    ((∀ d ∈ ds, d.2 ≤ 0xFFFF) → ∃ ss, readLinesFrom file number ls = .ok ss ∧
      ss.map Statement.content = ds.map definition) ∧
    ((¬ ∀ d ∈ ds, d.2 ≤ 0xFFFF) → ∃ d, readLinesFrom file number ls = .error (.fault d)) := by
  induction h generalizing number with
  | nil => simp [readLinesFrom]
  | @remark line ls ds hline _ _ ih =>
    obtain ⟨ihfit, ihrange⟩ := ih (number + 1)
    have hown : readLine line { file, line := number } = .ok [] := by simp [readLine, hline]
    constructor
    · intro hall
      obtain ⟨ss, hss, hcontents⟩ := ihfit hall
      exact ⟨ss, by simp [readLinesFrom, hown, hss], hcontents⟩
    · intro hsome
      obtain ⟨d, hd⟩ := ihrange hsome
      exact ⟨d, by simp [readLinesFrom, hown, hd]⟩
  | @define line name value n ls ds hname hvalue hline _ ih =>
    obtain ⟨ihfit, ihrange⟩ := ih (number + 1)
    have hread := readContents_constantLine hname hvalue
    rw [← hline, String.ofList_toList] at hread
    by_cases hn : n ≤ 0xFFFF
    · rw [if_pos hn] at hread
      have hown : readLine line { file, line := number } =
          .ok [⟨definition (name, n), { file, line := number }, line⟩] := by
        simp [readLine, hread, definition]
      simp only [List.forall_mem_cons, hn, true_and]
      constructor
      · intro hall
        obtain ⟨ss, hss, hcontents⟩ := ihfit hall
        exact ⟨⟨definition (name, n), { file, line := number }, line⟩ :: ss,
          by simp [readLinesFrom, hown, hss], by simp [hcontents]⟩
      · intro hsome
        obtain ⟨d, hd⟩ := ihrange hsome
        exact ⟨d, by simp [readLinesFrom, hown, hd]⟩
    · rw [if_neg hn] at hread
      constructor
      · exact fun hall => absurd (hall _ List.mem_cons_self) hn
      · exact fun _ => ⟨_, by simp [readLinesFrom, readLine, hread, ReadFailure.place]; rfl⟩

def constantSymbolAt (d : String × Nat) (place : Location) : Symbol := ⟨d.1, d.2, .constant place⟩

section

variable {s : Statement} {d : String × Nat} (hs : s.content = definition d) (t : Symbols) (a : Nat)

include hs

theorem layStatement_definition (hnew : d.1 ∉ t.names) :
    layStatement t a s = .ok (t ++ [constantSymbolAt d s.location], a) := by
  have hfind : t.find? d.1 = none := find?_eq_none_iff.mpr hnew
  simp [layStatement, hs, definition, constantValue, define, hfind, constantSymbolAt]

theorem layStatement_defined (hold : d.1 ∈ t.names) : ∃ e, layStatement t a s = .error e := by
  obtain ⟨first, hfind⟩ := Option.isSome_iff_exists.mp (find?_isSome_iff.mpr hold)
  exact ⟨s.fail (.duplicateSymbol d.1 first.location),
    by simp [layStatement, hs, definition, constantValue, define, hfind]⟩

end

/-- Constants are laid out just when no name comes twice. -/
theorem layOut_definitions {ss : List Statement} {ds : List (String × Nat)}
    (h : ss.map Statement.content = ds.map definition) {t : Symbols} (ht : t.names.Nodup) (a : Nat) :
    ((t.names ++ ds.map Prod.fst).Nodup →
      ∃ t', layOut t a ss = .ok t' ∧ t'.constants = t.constants ++ ds) ∧
    (¬ (t.names ++ ds.map Prod.fst).Nodup → ∃ e, layOut t a ss = .error e) := by
  induction ds generalizing ss t with
  | nil =>
    obtain rfl : ss = [] := by simpa using h
    simp [layOut, ht]
  | cons d ds ih =>
    obtain ⟨s, rest, rfl, hs, hrest⟩ := List.map_eq_cons_iff.mp h
    by_cases hold : d.1 ∈ t.names
    · obtain ⟨e, he⟩ := layStatement_defined hs t a hold
      constructor
      · intro hall
        exact absurd rfl ((List.nodup_append.mp hall).2.2 d.1 hold d.1 List.mem_cons_self)
      · exact fun _ => ⟨e, by simp [layOut, he]⟩
    · have hlay := layStatement_definition hs t a hold
      have hnames : Symbols.names (t ++ [constantSymbolAt d s.location]) = t.names ++ [d.1] := by
        simp [Symbols.names, constantSymbolAt]
      have hconstants : Symbols.constants (t ++ [constantSymbolAt d s.location]) =
          t.constants ++ [d] := by
        simp [Symbols.constants, Symbols.values, constantSymbolAt, Symbol.isLabel]
      have hnodup : (Symbols.names (t ++ [constantSymbolAt d s.location])).Nodup := by
        rw [hnames, List.nodup_append]
        refine ⟨ht, by simp, fun name hmem other hother => ?_⟩
        rintro rfl
        exact hold (List.mem_singleton.mp hother ▸ hmem)
      obtain ⟨ihnew, ihtwice⟩ := ih hrest hnodup
      -- the name moves from the definitions to the table
      rw [hnames, List.append_assoc, List.singleton_append, ← List.map_cons] at ihnew ihtwice
      constructor
      · intro hall
        obtain ⟨t', ht', hafter⟩ := ihnew hall
        refine ⟨t', by simp [layOut, hlay, ht'], ?_⟩
        rw [hafter, hconstants, List.append_assoc, List.singleton_append]
      · intro htwice
        obtain ⟨e, he⟩ := ihtwice htwice
        exact ⟨e, by simp [layOut, hlay, he]⟩

theorem emitRows_definitions {ss : List Statement} {ds : List (String × Nat)}
    (h : ss.map Statement.content = ds.map definition) (t : Symbols) (a : Nat) :
    emitRows t a ss = .ok [] := by
  induction ds generalizing ss with
  | nil =>
    obtain rfl : ss = [] := by simpa using h
    rfl
  | cons d ds ih =>
    obtain ⟨s, rest, rfl, hs, hrest⟩ := List.map_eq_cons_iff.mp h
    rw [emitRows, hs]
    exact ih hrest

def Definable (ds : List (String × Nat)) : Prop :=
  (∀ d ∈ ds, d.2 ≤ 0xFFFF) ∧ (ds.map Prod.fst).Nodup

/-- A text of definitions is assembled just when every value has at most sixteen bits and no name
comes twice. Its constants are then the definitions, and it has no code. -/
theorem assembleSource_definitions {text : String} {ds : List (String × Nat)}
    (h : DefinitionLines (lines text) ds) {origin : Int} (horigin : 0 ≤ origin ∧ origin ≤ 0xFFFF) :
    (Definable ds → ∃ image, assembleSource origin text = .ok image ∧ image.code = [] ∧
      image.symbols.constants = ds) ∧
    (¬ Definable ds → ∃ d, assembleSource origin text = .error (.assembly d)) := by
  obtain ⟨hfit, hrange⟩ := readLinesFrom_definitions h mergedName 1
  have hstart : Session.start origin = .ok { origin := origin.toNat } := if_pos horigin
  by_cases hvalues : ∀ d ∈ ds, d.2 ≤ 0xFFFF
  · obtain ⟨ss, hss, hcontents⟩ := hfit hvalues
    have hrows (t : Symbols) := emitRows_definitions hcontents t origin.toNat
    have hempty : (Symbols.names []).Nodup := List.nodup_nil
    obtain ⟨hnew, htwice⟩ := layOut_definitions hcontents hempty origin.toNat
    constructor
    · intro hds
      obtain ⟨t, ht, hconstants⟩ := hnew hds.2
      refine ⟨.ofRows t [], ?_, rfl, by simpa [Symbols.constants, Symbols.values] using hconstants⟩
      simp [assembleSource, hstart, Session.assembleText_eq, readSource, hss, assemble_eq, walks,
        ht, hrows]
    · intro hds
      obtain ⟨e, he⟩ := htwice fun hall => hds ⟨hvalues, hall⟩
      exact ⟨e, by simp [assembleSource, hstart, Session.assembleText_eq, readSource, hss,
        assemble_eq, walks, he]⟩
  · obtain ⟨d, hd⟩ := hrange hvalues
    constructor
    · exact fun hds => absurd hds.1 hvalues
    · intro _
      exact ⟨d, by simp [assembleSource, hstart, Session.assembleText_eq, readSource, hd,
        ReadFailure.toFailure]⟩

end Toolchain6502.Assembly
