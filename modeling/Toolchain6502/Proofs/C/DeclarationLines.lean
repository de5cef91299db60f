import Toolchain6502.Proofs.Assembly.WrittenLine
import Toolchain6502.Proofs.C.Exhaustion

namespace Toolchain6502.C

open Files Source Text

def typeWords : List Char :=
  ['u', 'n', 's', 'i', 'g', 'n', 'e', 'd', ' ', 'c', 'h', 'a', 'r', ' ']

def declarationLine (name : List Char) : List Char := typeWords ++ (name ++ [';'])

theorem isSymbol_of_isIdentifier {name : List Char} (h : isIdentifier name = true) :
    Assembly.isSymbol name = true := by
  cases name with
  | nil => simp [isIdentifier] at h
  | cons c cs => exact h

theorem trimmed_declarationLine (name : List Char) : Trimmed (declarationLine name) := by
  refine ⟨by simp [declarationLine, typeWords, isBlank], ?_⟩
  intro c hc
  rw [declarationLine, ← List.append_assoc, List.getLast?_concat] at hc
  obtain rfl := Option.some.inj hc
  decide

section

variable {name : List Char} (hname : isIdentifier name = true)

include hname

theorem globalAt?_declarationLine :
    globalAt? (declarationLine name) = some ⟨String.ofList name, none⟩ := by
  have hsymbol := isSymbol_of_isIdentifier hname
  have hblank : ∀ c ∈ name, isBlank c = false :=
    fun c hc => Assembly.isBlank_of_isInk (Assembly.isInk_of_mem_symbol hsymbol c hc)
  have htype : afterType? (declarationLine name) = some (name ++ [';']) := rfl
  have hend : dropEnd? [';'] (name ++ [';']) = some name := dropEnd?_eq_some.mpr rfl
  have hne : name ≠ [] := by
    rintro rfl
    simp [isIdentifier] at hname
  have htrim : trim name = name := Assembly.trim_of_no_blank hne hblank
  have hcut : cut? ['='] name = none := by
    apply cut?_eq_none (List.mem_singleton_self '=')
    intro hmem
    exact absurd (Assembly.isSymbolPart_of_mem hsymbol hmem) (by decide)
  rw [globalAt?_eq_some, declaration?, (trimmed_declarationLine name).trim_eq, htype]
  simp [hend, htrim, readDeclared, hcut, checkIdentifier, hne, hname, Except.map]

theorem sourceLine?_declarationLine (number : Nat) :
    sourceLine? number (String.ofList (declarationLine name)) =
      some ⟨number, String.ofList (declarationLine name), declarationLine name⟩ := by
  have hcut : cut? ['/', '/'] (declarationLine name) = none := by
    apply cut?_eq_none (List.mem_cons_self (a := '/'))
    intro hmem
    simp only [declarationLine, List.mem_append, List.mem_singleton] at hmem
    rcases hmem with hmem | hmem | hmem
    · simp [typeWords] at hmem
    · exact absurd (Assembly.isSymbolPart_of_mem (isSymbol_of_isIdentifier hname) hmem) (by decide)
    · simp at hmem
  have htext : trim (stripComment (String.ofList (declarationLine name)).toList) =
      declarationLine name := by
    simp [stripComment, hcut, (trimmed_declarationLine name).trim_eq]
  simp only [sourceLine?, htext]
  rfl

theorem isBreak_of_mem_declarationLine {c : Char} (hc : c ∈ declarationLine name) :
    isBreak c = false := by
  simp only [declarationLine, List.mem_append, List.mem_singleton] at hc
  rcases hc with hc | hc | rfl
  · have hwords : typeWords.all (fun c => !isBreak c) = true := by decide
    simpa using List.all_eq_true.mp hwords c hc
  · exact Assembly.isBreak_of_isInk (Assembly.isInk_of_mem_symbol (isSymbol_of_isIdentifier hname) c hc)
  · decide

end

def declarations (names : List (List Char)) : String :=
  String.join ((names.map fun name => String.ofList (declarationLine name)).map fun l => l ++ "\n")

theorem text_sourceLines_declarations {names : List (List Char)}
    (hnames : ∀ name ∈ names, isIdentifier name = true) :
    (sourceLines (declarations names)).map SourceLine.text = names.map declarationLine := by
  have hlines : lines (declarations names) =
      names.map fun name => String.ofList (declarationLine name) := by
    apply lines_join
    intro l hl c hc
    obtain ⟨name, hname, rfl⟩ := List.mem_map.mp hl
    rw [String.toList_ofList] at hc
    exact isBreak_of_mem_declarationLine (hnames name hname) hc
  have hread : sourceLines (declarations names) =
      (lines (declarations names)).zipIdx.map fun l => ⟨l.2 + 1, l.1, l.1.toList⟩ := by
    apply List.filterMap_eq_map_iff_forall_eq_some.mpr
    rintro ⟨l, i⟩ hl
    obtain ⟨name, hname, rfl⟩ := List.mem_map.mp (hlines ▸ List.fst_mem_of_mem_zipIdx hl)
    rw [String.toList_ofList]
    exact sourceLine?_declarationLine (hnames name hname) (i + 1)
  have hfirst := congrArg (List.map String.toList) (List.zipIdx_map_fst 0 (lines (declarations names)))
  rw [hread, List.map_map]
  rw [List.map_map] at hfirst
  refine hfirst.trans ?_
  rw [hlines, List.map_map]
  exact List.map_congr_left fun name _ => String.toList_ofList

theorem globalAt?_sourceLines_declarations {names : List (List Char)}
    (hnames : ∀ name ∈ names, isIdentifier name = true) :
    (sourceLines (declarations names)).map (fun l => globalAt? l.text) =
      names.map fun name => some ⟨String.ofList name, none⟩ := by
  have hread := congrArg (List.map globalAt?) (text_sourceLines_declarations hnames)
  rw [List.map_map, List.map_map] at hread
  refine hread.trans (List.map_congr_left ?_)
  exact fun name hname => globalAt?_declarationLine (hnames name hname)

namespace Allocation

def withGlobal (a : Allocation) (name : String) (location : Location) : Allocation :=
  { a with
    next := a.next + 1, addresses := a.addresses.put name a.next
    globals := a.globals ++ [⟨name, a.next, location⟩] }

variable {current : List String} {f : SourceFile} {a : Allocation}

theorem line_of_new {line : SourceLine} {name : String}
    (hd : globalAt? line.text = some ⟨name, none⟩) (hnew : name ∉ a.globals.map Variable.name)
    (hroom : a.next < zeroPageLimit) :
    Allocation.line current f (0, a) line = .ok (0, a.withGlobal name (f.location line)) := by
  obtain ⟨hprototype, hexternal, hstart⟩ := kinds_of_globalAt? hd
  have hfirst : a.globals.find? (·.name = name) = none := by
    rw [List.find?_eq_none]
    intro v hv
    simpa using fun heq => hnew (List.mem_map.mpr ⟨v, hv, heq⟩)
  have hfree : ¬a.next ≥ zeroPageLimit := by omega
  simp [Allocation.line, topLine, hprototype, hexternal, hstart, globalAt?_eq_some.mp hd, addGlobal,
    hfirst, place, hfree, atLine, withGlobal]

/-- Lines that declare new names place them in their order, if there is room for all of them. -/
theorem exists_foldlM_line {ls : List SourceLine} {names : List String}
    (hls : ls.map (fun l => globalAt? l.text) = names.map fun name => some ⟨name, none⟩)
    (hnodup : (a.globals.map Variable.name ++ names).Nodup)
    (hroom : a.next + names.length ≤ zeroPageLimit) :
    ∃ a', ls.foldlM (Allocation.line current f) (0, a) = .ok (0, a') ∧
      a'.globals.map Variable.name = a.globals.map Variable.name ++ names := by
  induction ls generalizing a names with
  | nil =>
    obtain rfl : names = [] := by simpa using hls.symm
    exact ⟨a, rfl, by simp⟩
  | cons line ls ih =>
    cases names with
    | nil => simp at hls
    | cons name names =>
      rw [List.map_cons, List.map_cons] at hls
      obtain ⟨hd, hls⟩ := List.cons.inj hls
      have hnew : name ∉ a.globals.map Variable.name := by
        intro hmem
        exact (List.nodup_append.mp hnodup).2.2 name hmem name List.mem_cons_self rfl
      rw [List.length_cons] at hroom
      have hroom' : (a.withGlobal name (f.location line)).next + names.length ≤ zeroPageLimit := by
        change a.next + 1 + names.length ≤ zeroPageLimit
        omega
      obtain ⟨a', ha', hglobals⟩ := ih hls (by simpa [withGlobal] using hnodup) hroom'
      refine ⟨a', ?_, by simpa [withGlobal] using hglobals⟩
      rw [List.foldlM_cons, line_of_new hd hnew (by omega), ok_bind, ha']

end Allocation

end Toolchain6502.C
