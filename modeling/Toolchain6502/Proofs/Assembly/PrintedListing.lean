import Mathlib.Data.List.Nodup
import Toolchain6502.Assembly.Listing
import Toolchain6502.Proofs.Assembly.DefinedNames
import Toolchain6502.Proofs.Assembly.ImageRows
import Toolchain6502.Proofs.Assembly.SymbolWords

namespace Toolchain6502.Assembly

open Cpu Text

def printedAddress (row : String) : Nat := positional 16 ((row.toList.drop 1).take 4)

def spacedWords (text : List Char) : List (List Char) :=
  (split ' ' text).filter fun word => !word.isEmpty

/-- The numerals in the twelve places of the code column. -/
def printedBytes (row : String) : List UInt8 :=
  (spacedWords ((row.toList.drop 7).take 12)).map fun digits => UInt8.ofNat (positional 16 digits)

def lineColumn (row : String) : List Char := trimLeft (row.toList.drop 21)

def printedLine (row : String) : Nat :=
  Nat.ofDigitChars 10 ((lineColumn row).takeWhile Char.isDigit) 0

def printedSource (row : String) : String :=
  String.ofList (((lineColumn row).dropWhile Char.isDigit).drop 2)

/-- The name at the start of a row, and the number behind its last dollar sign. -/
def printedSymbol (row : String) : String × Nat :=
  (String.ofList (row.toList.takeWhile fun c => !isBlank c),
    positional 16 (((cutLast? '$' row.toList).map Prod.snd).getD []))

theorem spacedWords_append {word : List Char} (h : ' ' ∉ word) (hne : word ≠ [])
    (rest : List Char) : spacedWords (word ++ ' ' :: rest) = word :: spacedWords rest := by
  rw [spacedWords, split_append_separator h, List.filter_cons_of_pos (by simpa using hne)]
  rfl

theorem spacedWords_replicate (n : Nat) : spacedWords (List.replicate n ' ') = [] := by
  induction n with
  | zero => rfl
  | succ n ih => simpa [spacedWords, split, List.replicate_succ] using ih

theorem spacedWords_intercalate {words : List (List Char)}
    (h : ∀ word ∈ words, ' ' ∉ word ∧ word ≠ []) (n : Nat) :
    spacedWords ([' '].intercalate words ++ List.replicate n ' ') = words := by
  induction words with
  | nil => simpa using spacedWords_replicate n
  | cons word rest ih =>
    obtain ⟨⟨hspace, hne⟩, hrest⟩ := List.forall_mem_cons.mp h
    cases rest with
    | cons next rest =>
      rw [List.intercalate_cons_cons, List.append_assoc, List.append_assoc, List.singleton_append,
        spacedWords_append hspace hne, ih hrest]
    | nil =>
      cases n with
      | zero =>
        simp [spacedWords, split_of_not_mem hspace, hne]
      | succ n =>
        rw [List.intercalate_singleton, List.replicate_succ, spacedWords_append hspace hne,
          spacedWords_replicate]

def byteText (b : UInt8) : List Char := (hex 2 b.toNat).toList

theorem byteText_length (b : UInt8) : (byteText b).length = 2 := by
  have hdigits : (upperHex b.toNat).length ≤ 2 :=
    (length_upperHex_le_iff (by decide)).mpr b.toNat_lt
  rw [byteText, (hex_spells 2 b.toNat).2]
  omega

theorem byteText_spells (b : UInt8) : UInt8.ofNat (positional 16 (byteText b)) = b := by
  rw [byteText, (hex_spells 2 b.toNat).1, UInt8.ofNat_toNat]

theorem space_not_mem_byteText (b : UInt8) : ' ' ∉ byteText b := by
  intro hmem
  exact absurd (isHexDigit_of_mem_hex hmem) (by decide)

theorem isBreak_of_mem_byteTexts {bs : List UInt8} {c : Char}
    (hc : c ∈ [' '].intercalate (bs.map byteText)) : isBreak c = false := by
  have hbyte {b : UInt8} (hc : c ∈ byteText b) : isBreak c = false :=
    isBreak_of_isInk (isInk_of_isHexDigit (isHexDigit_of_mem_hex hc))
  induction bs with
  | nil => simp at hc
  | cons b bs ih =>
    cases bs with
    | nil => exact hbyte (by simpa using hc)
    | cons next bs =>
      rw [List.map_cons, List.map_cons, List.intercalate_cons_cons, List.mem_append,
        List.mem_append, List.mem_singleton] at hc
      rcases hc with (hc | rfl) | hc
      · exact hbyte hc
      · rfl
      · exact ih hc

theorem intercalate_byteText_length (bs : List UInt8) :
    ([' '].intercalate (bs.map byteText)).length ≤ 3 * bs.length := by
  induction bs with
  | nil => simp
  | cons b bs ih =>
    cases bs with
    | nil => simp [byteText_length]
    | cons next bs =>
      rw [List.map_cons, List.map_cons, List.intercalate_cons_cons]
      simp only [List.map_cons, List.length_cons, List.length_append, byteText_length] at ih ⊢
      simp only [List.length_nil]
      omega

/-- The columns are wide enough for what is written in them. -/
structure Row.Printable (r : Row) : Prop where
  address : r.address < addressLimit
  bytes : r.bytes.length ≤ 4
  line : 0 ≤ r.line

namespace Row

def codeColumn (r : Row) : List Char :=
  [' '].intercalate (r.bytes.map byteText) ++
    List.replicate (12 - ([' '].intercalate (r.bytes.map byteText)).length) ' '

theorem render_toList (r : Row) : r.render.toList =
    '$' :: ((hex 4 r.address).toList ++ ' ' :: ' ' :: (r.codeColumn ++ ' ' :: ' ' ::
      ((padLeft 4 (toString r.line)).toList ++ ' ' :: ' ' :: trim r.source.toList))) := by
  have hcode : String.intercalate " " (r.bytes.map fun b => hex 2 b.toNat) =
      String.ofList ([' '].intercalate (r.bytes.map byteText)) := by
    simp only [← String.toList_inj, String.toList_intercalate, String.toList_ofList, List.map_map]
    rfl
  simp [Row.render, toString, trimmed, hcode, padRight, codeColumn]

variable {r : Row}

theorem Printable.codeColumn_length (h : r.Printable) : r.codeColumn.length = 12 := by
  have hbytes := h.bytes
  have hwritten := intercalate_byteText_length r.bytes
  simp only [codeColumn, List.length_append, List.length_replicate]
  omega

theorem Printable.address_length (h : r.Printable) : (hex 4 r.address).toList.length = 4 := by
  have hdigits : (upperHex r.address).length ≤ 4 :=
    (length_upperHex_le_iff (by decide)).mpr h.address
  rw [(hex_spells 4 r.address).2]
  omega

theorem Printable.printedAddress (h : r.Printable) : printedAddress r.render = r.address := by
  have hcolumn : (r.render.toList.drop 1).take 4 = (hex 4 r.address).toList := by
    rw [render_toList, List.drop_one, List.tail_cons, List.take_left' h.address_length]
  rw [Assembly.printedAddress, hcolumn, (hex_spells 4 r.address).1]

theorem Printable.printedBytes (h : r.Printable) : printedBytes r.render = r.bytes := by
  have hcolumn : (r.render.toList.drop 7).take 12 = r.codeColumn := by
    have hfront (rest : List Char) : '$' :: ((hex 4 r.address).toList ++ ' ' :: ' ' :: rest) =
        '$' :: (hex 4 r.address).toList ++ [' ', ' '] ++ rest := by simp
    rw [render_toList, hfront, List.drop_left' (by simp [h.address_length]),
      List.take_left' h.codeColumn_length]
  have hwords : ∀ word ∈ r.bytes.map byteText, ' ' ∉ word ∧ word ≠ [] := by
    intro word hword
    obtain ⟨b, -, rfl⟩ := List.mem_map.mp hword
    have hlength := byteText_length b
    exact ⟨space_not_mem_byteText b, fun hnil => by simp [hnil] at hlength⟩
  rw [Assembly.printedBytes, hcolumn, codeColumn, spacedWords_intercalate hwords, List.map_map]
  exact (List.map_congr_left fun b _ => byteText_spells b).trans (List.map_id _)

theorem Printable.toString_line (h : r.Printable) :
    (toString r.line).toList = Nat.toDigits 10 r.line.toNat := by
  obtain ⟨n, hn⟩ := Int.eq_ofNat_of_zero_le h.line
  rw [hn]
  exact Nat.toList_repr

theorem Printable.lineColumn (h : r.Printable) : lineColumn r.render =
    Nat.toDigits 10 r.line.toNat ++ ' ' :: ' ' :: trim r.source.toList := by
  have hfront (rest : List Char) : '$' :: ((hex 4 r.address).toList ++ ' ' :: ' ' ::
      (r.codeColumn ++ ' ' :: ' ' :: rest)) =
      '$' :: (hex 4 r.address).toList ++ [' ', ' '] ++ r.codeColumn ++ [' ', ' '] ++ rest := by
    simp
  rw [Assembly.lineColumn, render_toList, hfront, List.drop_left' (by
    simp [h.address_length, h.codeColumn_length]), padLeft, String.toList_append,
    h.toString_line, String.toList_ofList, List.append_assoc]
  apply trimLeft_append
  · intro c hc
    rw [List.eq_of_mem_replicate hc]
    rfl
  · intro c hc
    rw [List.head?_append_of_ne_nil _ Nat.toDigits_ne_nil] at hc
    exact isBlank_of_isDigit
      (isDigit_of_ascii (isDigit_of_mem_decimalDigits _ c (List.mem_of_mem_head? hc)))

theorem Printable.printedLine (h : r.Printable) : (printedLine r.render : Int) = r.line := by
  rw [Assembly.printedLine, h.lineColumn,
    List.takeWhile_append_of_pos (isDigit_of_mem_decimalDigits _),
    List.takeWhile_cons_of_neg (by decide), List.append_nil, Nat.ofDigitChars_ten_toDigits]
  exact Int.toNat_of_nonneg h.line

theorem Printable.printedSource (h : r.Printable) : printedSource r.render = trimmed r.source := by
  rw [Assembly.printedSource, h.lineColumn,
    List.dropWhile_append_of_pos (isDigit_of_mem_decimalDigits _),
    List.dropWhile_cons_of_neg (by decide)]
  rfl

/-- A row is one line of the listing, since its source was one. -/
theorem Printable.unbroken (h : r.Printable) (hsource : ∀ c ∈ r.source.toList, isBreak c = false) :
    ∀ c ∈ r.render.toList, isBreak c = false := by
  have hdigit {c : Char} (hc : isHexDigit c = true) : isBreak c = false :=
    isBreak_of_isInk (isInk_of_isHexDigit hc)
  have hblanks (n : Nat) : ∀ c ∈ List.replicate n ' ', isBreak c = false := by
    intro c hc
    rw [List.eq_of_mem_replicate hc]
    rfl
  have hline : ∀ c ∈ Nat.toDigits 10 r.line.toNat, isBreak c = false := by
    intro c hc
    have hdecimal := isDigit_of_mem_decimalDigits _ c hc
    exact hdigit (by simp [isHexDigit, hdecimal])
  have htrimmed : ∀ c ∈ trim r.source.toList, isBreak c = false :=
    fun c hc => hsource c (mem_of_mem_trim hc)
  simp only [render_toList, codeColumn, padLeft, h.toString_line, String.toList_append,
    String.toList_ofList, List.forall_mem_cons, List.forall_mem_append]
  exact ⟨rfl, fun c hc => hdigit (isHexDigit_of_mem_hex hc), rfl, rfl,
    ⟨fun c hc => isBreak_of_mem_byteTexts hc, hblanks _⟩, rfl, rfl, ⟨hblanks _, hline⟩, rfl, rfl,
    htrimmed⟩

end Row

section

variable {origin : Nat} {predefined : Symbols} {file text : String} {ss : List Statement}
  {image : Image}

/-- An instruction that is placed ends in memory and has at most three bytes. -/
theorem Statement.Fits.printable {t u : Symbols} {a : Nat} {s : Statement} (h : s.Fits t a)
    (hline : 0 ≤ s.location.line) {row : Row} (hrow : s.row? u a = some row) : row.Printable := by
  obtain rfl := Statement.eq_of_row? hrow
  unfold Statement.row? at hrow
  split at hrow
  · rename_i m o hc
    simp only [Statement.Fits, hc] at h
    obtain ⟨opcode, hopcode⟩ := Option.isSome_iff_exists.mp h.1
    have hsize : s.size = 1 + opcode.mode.operandSize := by
      simp [Statement.size, hc, hopcode, Opcode.size]
    have hmode : opcode.mode.operandSize ≤ 2 := by cases opcode.mode <;> decide
    have hlimit := h.2
    refine ⟨?_, ?_, hline⟩
    · show a < addressLimit
      omega
    · rw [Statement.bytes_length]
      omega
  · simp at hrow

/-- The rows have the texts of lines, which are not broken. -/
theorem row_of_assemble (hread : readSource file text = .ok ss)
    (h : assemble origin predefined ss = .ok image) {row : Row} (hrow : row ∈ image.rows) :
    row.Printable ∧ ∀ c ∈ row.source.toList, isBreak c = false := by
  obtain ⟨hfit, -, rfl⟩ := (assemble_eq_ok (readSource_formed hread)).mp h
  obtain ⟨p, hp, hrow⟩ := List.mem_filterMap.mp hrow
  obtain ⟨k, hk⟩ := List.getElem?_of_mem hp
  rw [placed_getElem?] at hk
  obtain ⟨s, hs, rfl⟩ := Option.map_eq_some_iff.mp hk
  obtain ⟨n, line, own, hline, hown, hmem, hlocation⟩ :=
    exists_line_of_readLinesFrom hread (List.mem_of_getElem? hs)
  constructor
  · refine Statement.Fits.printable (allFit_iff.mp hfit k s hs) ?_ hrow
    rw [hlocation]
    show (0 : Int) ≤ (1 : Nat) + n
    omega
  · obtain rfl := Statement.eq_of_row? hrow
    intro c hc
    rw [(placed_of_readLine hown hmem).2] at hc
    exact isBreak_of_mem_lines (List.mem_of_getElem? hline) hc

end

theorem tableAfter_eq_append (t : Symbols) (a : Nat) (ss : List Statement) :
    ∃ added : Symbols, tableAfter t a ss = t ++ added ∧ added.names = definedNames ss ∧
      ∀ x ∈ added, x.isPredefined = false := by
  induction ss generalizing t a with
  | nil => exact ⟨[], (List.append_nil t).symm, rfl, by simp⟩
  | cons s rest ih =>
    obtain ⟨added, htable, hnames, hsource⟩ := ih (t ++ s.entries t a) (a + s.size)
    refine ⟨s.entries t a ++ added, ?_, ?_, List.forall_mem_append.mpr ⟨?_, hsource⟩⟩
    · rw [tableAfter, htable, List.append_assoc]
    · have hentries := entries_names t a s
      simp only [Symbols.names, definedNames, List.map_append, List.filterMap_cons]
        at hnames hentries ⊢
      rw [hentries, hnames]
      cases s.defines? <;> rfl
    · unfold Statement.entries
      split <;> simp [Symbol.isPredefined]

theorem Symbols.find?_of_mem {t : Symbols} (h : t.names.Nodup) {x : Symbol} (hx : x ∈ t) :
    t.find? x.name = some x := by
  obtain ⟨y, hy⟩ := Option.isSome_iff_exists.mp
    (find?_isSome_iff.mpr (List.mem_map_of_mem (f := Symbol.name) hx))
  have hname : y.name = x.name := by simpa using List.find?_some hy
  rw [hy, List.inj_on_of_nodup_map h (List.mem_of_find?_eq_some hy) hx hname]

/-- The symbols that are added have fresh names. -/
theorem mem_values_iff {predefined added : Symbols} (hnodup : added.names.Nodup)
    (hfresh : ∀ name ∈ added.names, name ∉ predefined.names) (name : String) (value : Nat) :
    (name, value) ∈ added.values ↔
      name ∈ added.names ∧ Symbols.value? (predefined ++ added) name = some value := by
  have hbehind (hname : name ∈ added.names) :
      Symbols.value? (predefined ++ added) name = added.value? name := by
    have hnone : List.find? (·.name == name) predefined = none :=
      find?_eq_none_iff.mpr (hfresh name hname)
    rw [Symbols.value?, Symbols.find?, List.find?_append, hnone]
    rfl
  constructor
  · intro hmem
    obtain ⟨x, hx, heq⟩ := List.mem_map.mp hmem
    obtain ⟨rfl, rfl⟩ := Prod.mk.inj heq
    have hname : x.name ∈ added.names := List.mem_map_of_mem hx
    refine ⟨hname, ?_⟩
    rw [hbehind hname, Symbols.value?, Symbols.find?_of_mem hnodup hx]
    rfl
  · rintro ⟨hname, hvalue⟩
    rw [hbehind hname] at hvalue
    obtain ⟨x, hx, rfl⟩ := Option.map_eq_some_iff.mp hvalue
    have hfound : x.name = name := by simpa using List.find?_some hx
    exact List.mem_map.mpr ⟨x, List.mem_of_find?_eq_some hx, by rw [hfound]⟩

/-- The symbols of a listing are those that the unit adds to the predefined ones. -/
structure Lists (t predefined : Symbols) (ss : List Statement) (added : Symbols) : Prop where
  table : t = predefined ++ added
  names : added.names = definedNames ss
  sorted : t.sorted.Perm added
  nodup : added.names.Nodup
  fresh : ∀ name ∈ added.names, name ∉ predefined.names

theorem AllFit.lists {predefined : Symbols} {origin : Nat} {ss : List Statement}
    (h : AllFit predefined origin ss) (hpredefined : ∀ x ∈ predefined, x.isPredefined = true) :
    ∃ added, Lists (tableAfter predefined origin ss) predefined ss added := by
  obtain ⟨added, htable, hnames, hsource⟩ := tableAfter_eq_append predefined origin ss
  refine ⟨added, htable, hnames, ?_, hnames ▸ h.distinct, ?_⟩
  · have hfilter : (predefined ++ added).filter (fun x => !x.isPredefined) = added := by
      rw [List.filter_append, List.filter_eq_nil_iff.mpr, List.filter_eq_self.mpr, List.nil_append]
      · intro x hx
        simp [hsource x hx]
      · intro x hx
        simp [hpredefined x hx]
    rw [htable, Symbols.sorted, hfilter]
    exact List.mergeSort_perm _ _
  · rw [hnames]
    intro name hname
    obtain ⟨s, hs, hdefines⟩ := List.mem_filterMap.mp hname
    exact h.fresh hs hdefines

namespace Lists

variable {t predefined added : Symbols} {ss : List Statement}

theorem pairwise (h : Lists t predefined ss added) :
    t.sorted.Pairwise fun x y => x.name < y.name := by
  have hsorted : t.sorted.Pairwise fun x y => (!decide (y.name < x.name)) = true := by
    apply List.pairwise_mergeSort
    · intro x y z hxy hyz
      simp only [Bool.not_eq_true', decide_eq_false_iff_not, String.not_lt] at hxy hyz ⊢
      exact String.le_trans hxy hyz
    · intro x y
      simp only [Bool.or_eq_true, Bool.not_eq_true', decide_eq_false_iff_not, String.not_lt]
      exact String.le_total _ _
  have hdistinct : t.sorted.Pairwise fun x y => x.name ≠ y.name :=
    List.pairwise_map.mp ((h.sorted.map Symbol.name).nodup_iff.mpr h.nodup)
  refine (hsorted.and hdistinct).imp ?_
  rintro x y ⟨hle, hne⟩
  simp only [Bool.not_eq_true', decide_eq_false_iff_not, String.not_lt] at hle
  by_contra hlt
  exact hne (String.le_antisymm hle (String.not_lt.mp hlt))

/-- A symbol that is listed is one that the unit defines, with its value in the table. -/
theorem mem_values (h : Lists t predefined ss added) (name : String) (value : Nat) :
    (name, value) ∈ Symbols.values t.sorted ↔
      name ∈ definedNames ss ∧ t.value? name = some value := by
  have hperm : (name, value) ∈ Symbols.values t.sorted ↔ (name, value) ∈ added.values :=
    (h.sorted.map _).mem_iff
  rw [hperm, mem_values_iff h.nodup h.fresh, h.names, ← h.table]

theorem isConstantName (h : Lists t predefined ss added) {file text : String}
    (hread : readSource file text = .ok ss) {x : Symbol} (hx : x ∈ t.sorted) :
    isConstantName x.name.toList = true := by
  have hname : x.name ∈ definedNames ss := by
    rw [← h.names]
    exact List.mem_map_of_mem (h.sorted.mem_iff.mp hx)
  rw [definedNames_of_readLinesFrom hread] at hname
  obtain ⟨line, -, hdefined⟩ := List.mem_flatMap.mp hname
  exact isConstantName_of_definedBy hdefined

end Lists

/-- A name up to the first space, and a number behind the last dollar sign. -/
theorem printedSymbol_of_toList {row name : String} {value : Nat} (middle : List Char)
    (hrow : row.toList = name.toList ++ (' ' :: middle ++ '$' :: (hex 4 value).toList))
    (hname : ∀ c ∈ name.toList, isBlank c = false) : printedSymbol row = (name, value) := by
  have hdollar : '$' ∉ (hex 4 value).toList :=
    fun hmem => absurd (isHexDigit_of_mem_hex hmem) (by decide)
  have hword : row.toList.takeWhile (fun c => !isBlank c) = name.toList := by
    rw [hrow, List.takeWhile_append_of_pos fun c hc => by simp [hname c hc], List.cons_append,
      List.takeWhile_cons_of_neg (by decide), List.append_nil]
  have hcut : cutLast? '$' row.toList =
      some (name.toList ++ ' ' :: middle, (hex 4 value).toList) := by
    rw [hrow, ← List.append_assoc, cutLast?_append hdollar]
  rw [printedSymbol, hword, hcut, String.ofList_toList]
  simp [(hex_spells 4 value).1]

theorem renderRow_toList (x : Symbol) : x.renderRow.toList = x.name.toList ++
    (' ' :: (List.replicate (20 - x.name.length) ' ' ++ ['=', ' ']) ++
      '$' :: (hex 4 x.value).toList) := by
  have hspaces (n : Nat) (rest : List Char) :
      List.replicate n ' ' ++ ' ' :: rest = ' ' :: (List.replicate n ' ' ++ rest) := by
    rw [List.append_cons, ← List.replicate_succ', List.replicate_succ, List.cons_append]
  simp [Symbol.renderRow, padRight, toString, hspaces]

def Symbol.fileRow (x : Symbol) : String := s!"{x.name} ${hex 4 x.value}"

theorem fileRow_toList (x : Symbol) :
    x.fileRow.toList = x.name.toList ++ (' ' :: [] ++ '$' :: (hex 4 x.value).toList) := by
  simp [Symbol.fileRow, toString]

def symbolFileHead : List String := ["# Symbol table", "# Generated by chasm"]

theorem symbolFile_eq (i : Image) : i.symbolFile = String.join
    ((symbolFileHead ++ i.symbols.sorted.map Symbol.fileRow).map fun l => l ++ "\n") := by
  have hhead : String.join (symbolFileHead.map fun l => l ++ "\n") =
      "# Symbol table\n# Generated by chasm\n" := by decide
  rw [List.map_append, String.join_append, List.map_map, hhead]
  rfl

def listingHead : List String := ["Chipcade 6502 Assembler Listing", ruler '=' 60, "",
  "Addr   Code          Line  Source", ruler '-' 60]

def symbolHead : List String := ["", "Symbol Table", ruler '-' 30]

theorem heads_unbroken {l : String} (hl : l ∈ listingHead ++ symbolHead ++ symbolFileHead) :
    ∀ c ∈ l.toList, isBreak c = false := by
  have hall : (listingHead ++ symbolHead ++ symbolFileHead).all
      (fun l => l.toList.all fun c => !isBreak c) = true := by decide
  intro c hc
  simpa using List.all_eq_true.mp (List.all_eq_true.mp hall l hl) c hc

structure Image.Printable (i : Image) : Prop where
  rows : ∀ row ∈ i.rows, row.Printable
  sources : ∀ row ∈ i.rows, ∀ c ∈ row.source.toList, isBreak c = false
  names : ∀ x ∈ i.symbols.sorted, isConstantName x.name.toList = true

namespace Image.Printable

variable {i : Image} (h : i.Printable)

include h

theorem symbolRows_unbroken {x : Symbol} (hx : x ∈ i.symbols.sorted) :
    (∀ c ∈ x.renderRow.toList, isBreak c = false) ∧ ∀ c ∈ x.fileRow.toList, isBreak c = false := by
  have hname {c : Char} (hc : c ∈ x.name.toList) : isBreak c = false :=
    (plain_of_isConstantName (h.names x hx) hc).2.1
  have hvalue {c : Char} (hc : c ∈ (hex 4 x.value).toList) : isBreak c = false :=
    isBreak_of_isInk (isInk_of_isHexDigit (isHexDigit_of_mem_hex hc))
  have hmiddle {middle : List Char} (hmiddle : ∀ c ∈ middle, isBreak c = false) :
      ∀ c ∈ x.name.toList ++ (' ' :: middle ++ '$' :: (hex 4 x.value).toList),
        isBreak c = false := by
    simp only [List.forall_mem_append, List.forall_mem_cons]
    exact ⟨fun c hc => hname hc, ⟨rfl, hmiddle⟩, rfl, fun c hc => hvalue hc⟩
  rw [renderRow_toList, fileRow_toList]
  refine ⟨hmiddle (List.forall_mem_append.mpr ⟨fun c hc => ?_, by simp [isBreak]⟩),
    hmiddle (by simp)⟩
  rw [List.eq_of_mem_replicate hc]
  rfl

theorem lines_listing : lines i.listing =
    listingHead ++ i.rows.map Row.render ++ symbolHead ++ i.symbols.sorted.map Symbol.renderRow := by
  have hlines : i.listingLines = listingHead ++ i.rows.map Row.render ++ symbolHead ++
      i.symbols.sorted.map Symbol.renderRow := rfl
  rw [Image.listing, hlines]
  apply lines_intercalate
  · have hhead {ls : List String} (hls : ls ⊆ listingHead ++ symbolHead ++ symbolFileHead) :
        ∀ l ∈ ls, ∀ c ∈ l.toList, isBreak c = false := fun l hl => heads_unbroken (hls hl)
    simp only [List.forall_mem_append, List.forall_mem_map]
    refine ⟨⟨⟨hhead (by simp), ?_⟩, hhead (by simp)⟩, fun x hx => (h.symbolRows_unbroken hx).1⟩
    exact fun row hrow => (h.rows row hrow).unbroken (h.sources row hrow)
  · intro l hl
    -- the last line is the one under the symbols' title, or a symbol's
    have hlast : l = ruler '-' 30 ∨ l ∈ i.symbols.sorted.map Symbol.renderRow := by
      rw [List.getLast?_append, List.getLast?_append] at hl
      rcases hrows : (i.symbols.sorted.map Symbol.renderRow).getLast? with _ | row
      · rw [hrows] at hl
        exact .inl (Option.some.inj hl).symm
      · rw [hrows] at hl
        obtain rfl : row = l := Option.some.inj hl
        exact .inr (List.mem_of_getLast? hrows)
    rcases hlast with rfl | hrow
    · decide
    · obtain ⟨x, -, rfl⟩ := List.mem_map.mp hrow
      intro hempty
      have hchars := renderRow_toList x
      rw [hempty] at hchars
      simp at hchars

theorem lines_symbolFile : lines i.symbolFile =
    symbolFileHead ++ i.symbols.sorted.map Symbol.fileRow := by
  rw [symbolFile_eq]
  apply lines_join
  refine List.forall_mem_append.mpr ⟨fun l hl => heads_unbroken (List.mem_append_right _ hl), ?_⟩
  intro l hl
  obtain ⟨x, hx, rfl⟩ := List.mem_map.mp hl
  exact (h.symbolRows_unbroken hx).2

theorem printedSymbols :
    (i.symbols.sorted.map Symbol.renderRow).map printedSymbol = Symbols.values i.symbols.sorted ∧
      (i.symbols.sorted.map Symbol.fileRow).map printedSymbol = Symbols.values i.symbols.sorted := by
  have hname {x : Symbol} (hx : x ∈ i.symbols.sorted) : ∀ c ∈ x.name.toList, isBlank c = false :=
    fun c hc => (plain_of_isConstantName (h.names x hx) hc).1
  rw [List.map_map, List.map_map]
  constructor
  · refine List.map_congr_left fun x hx => ?_
    exact printedSymbol_of_toList _ (renderRow_toList x) (hname hx)
  · refine List.map_congr_left fun x hx => ?_
    exact printedSymbol_of_toList _ (fileRow_toList x) (hname hx)

end Image.Printable

theorem printable_of_assemble {origin : Nat} {predefined added : Symbols} {file text : String}
    {ss : List Statement} {image : Image} (hread : readSource file text = .ok ss)
    (h : assemble origin predefined ss = .ok image)
    (hlists : Lists image.symbols predefined ss added) : image.Printable := by
  refine ⟨fun row hrow => (row_of_assemble hread h hrow).1,
    fun row hrow => (row_of_assemble hread h hrow).2, fun x hx => hlists.isConstantName hread hx⟩

namespace Session

theorem defineAll_predefined {s : Session} (h : ∀ x ∈ s.predefined, x.isPredefined = true)
    (defines : List (String × Int)) :
    (s.defineAll defines).origin = s.origin ∧
      ∀ x ∈ (s.defineAll defines).predefined, x.isPredefined = true := by
  unfold defineAll
  induction defines generalizing s with
  | nil => exact ⟨rfl, h⟩
  | cons d defines ih =>
    refine ih (s := s.define d.1 d.2) fun x hx => ?_
    simp only [define, Symbols.predefine] at hx
    split at hx
    · obtain ⟨y, hy, rfl⟩ := List.mem_map.mp hx
      split
      · rfl
      · exact h y hy
    · rcases List.mem_append.mp hx with hx | hx
      · exact h x hx
      · rw [List.mem_singleton.mp hx]
        rfl

theorem start_origin {origin : Int} {s : Session} (h : start origin = .ok s) :
    (s.origin : Int) = origin := by
  unfold start at h
  split at h
  · rename_i hrange
    rw [← Except.ok.inj h]
    exact Int.toNat_of_nonneg hrange.1
  · simp at h

/-- The listing of a unit that is assembled has a row for each instruction, in order. A row shows
the address at which the bytes of the rows before it end. The bytes of the rows are the image, and
their line numbers, one for each byte, are the line map. The symbols below them, and those of the
symbol file, are the ones that the source defines, sorted by name, with their values. -/
theorem listing_reproduces_image {origin : Int} {first final : Session}
    {defines : List (String × Int)} {text : String} {code : List UInt8}
    (hstart : start origin = .ok first)
    (h : (first.defineAll defines).assembleText text = (.ok code, final)) :
    ∃ (ss : List Statement) (rows symbols fileSymbols : List String),
      readSource mergedName text = .ok ss ∧
      lines final.image.listing = listingHead ++ rows ++ symbolHead ++ symbols ∧
      List.Forall₂ (fun row s => printedBytes row = s.bytes final.image.symbols (printedAddress row) ∧
          (printedLine row : Int) = s.location.line ∧ printedSource row = trimmed s.source)
        rows (ss.filter Statement.isInstruction) ∧
      (∀ k row, rows[k]? = some row →
        (printedAddress row : Int) = origin + ((rows.take k).flatMap printedBytes).length) ∧
      rows.flatMap printedBytes = code ∧
      rows.flatMap (fun row => List.replicate (printedBytes row).length (printedLine row : Int)) =
        final.image.lineMap ∧
      (symbols.map printedSymbol).Pairwise (fun x y => x.1 < y.1) ∧
      (∀ name value, (name, value) ∈ symbols.map printedSymbol ↔
        name ∈ definedNames ss ∧ final.image.symbols.value? name = some value) ∧
      lines final.image.symbolFile = symbolFileHead ++ fileSymbols ∧
      fileSymbols.map printedSymbol = symbols.map printedSymbol := by
  obtain ⟨hempty, -⟩ := start_eq_ok hstart
  obtain ⟨hsame, hpredefined⟩ := defineAll_predefined (s := first) (by simp [hempty]) defines
  obtain ⟨ss, image, hread, hassemble, rfl, rfl⟩ := assembleText_eq_ok.mp h
  rw [hsame] at hassemble
  have hrows := emitRows_of_assemble hassemble
  obtain ⟨hcode, hlines⟩ := code_of_assemble hassemble
  obtain ⟨hfit, -, himage⟩ := (assemble_eq_ok (readSource_formed hread)).mp hassemble
  obtain ⟨added, hlists⟩ : ∃ added, Lists image.symbols (first.defineAll defines).predefined ss
      added := by
    rw [himage]
    exact hfit.lists hpredefined
  have hprintable := printable_of_assemble hread hassemble hlists
  obtain ⟨hsymbols, hfile⟩ := hprintable.printedSymbols
  have hbytes {ls : List Row} (hls : ls ⊆ image.rows) :
      (ls.map Row.render).flatMap printedBytes = ls.flatMap Row.bytes := by
    rw [List.flatMap_map]
    exact List.flatMap_congr fun row hrow => (hprintable.rows row (hls hrow)).printedBytes
  refine ⟨ss, image.rows.map Row.render, _, _, hread, hprintable.lines_listing, ?_, ?_, ?_,
    ?_, ?_, ?_, hprintable.lines_symbolFile, hfile.trans hsymbols.symm⟩
  · have hwrites := (List.forall₂_and_left _ _).mpr
      ⟨hprintable.rows, emitRows_writes (readSource_formed hread) hrows⟩
    rw [List.forall₂_map_left_iff]
    refine hwrites.imp ?_
    rintro row s ⟨hrow, hs⟩
    rw [hrow.printedBytes, hrow.printedAddress, hrow.printedLine, hrow.printedSource, hs.line,
      hs.source]
    exact ⟨hs.bytes, rfl, rfl⟩
  · intro k row hk
    rw [List.getElem?_map] at hk
    obtain ⟨row, hrow, rfl⟩ := Option.map_eq_some_iff.mp hk
    rw [(hprintable.rows row (List.mem_of_getElem? hrow)).printedAddress, ← List.map_take,
      hbytes (List.take_subset k image.rows), emitRows_address hrows hrow, ← start_origin hstart]
    exact Int.natCast_add _ _
  · rw [hcode]
    exact hbytes (List.Subset.refl image.rows)
  · rw [List.flatMap_map, hlines]
    refine List.flatMap_congr fun row hrow => ?_
    rw [(hprintable.rows row hrow).printedBytes, (hprintable.rows row hrow).printedLine]
  · rw [hsymbols]
    exact List.pairwise_map.mpr hlists.pairwise
  · rw [hsymbols]
    exact hlists.mem_values

/-- A label is listed with its address; the predefined symbol is not listed. -/
theorem storeText_listed : ∃ first final rows symbols, start 0x200 = .ok first ∧
    (first.defineAll [("VRAM", -0x8000)]).assembleText storeText =
      (.ok [0x4C, 0x03, 0x02, 0x8D, 0x00, 0x80], final) ∧
    lines final.image.listing = listingHead ++ rows ++ symbolHead ++ symbols ∧ rows.length = 2 ∧
    rows.flatMap printedBytes = [0x4C, 0x03, 0x02, 0x8D, 0x00, 0x80] ∧
    ("End", 0x203) ∈ symbols.map printedSymbol ∧
    ∀ value, ("VRAM", value) ∉ symbols.map printedSymbol := by
  have hread : readSource mergedName storeText = .ok storeUnit :=
    eq_ok_of_toOption (by decide +kernel)
  have hrun : (Assembly.assemble 0x200 [⟨"VRAM", 0x8000, .predefined⟩] storeUnit).toOption.map
      (fun i => (i.code, i.symbols.value? "End")) =
        some ([0x4C, 0x03, 0x02, 0x8D, 0x00, 0x80], some 0x203) := by decide +kernel
  obtain ⟨image, himage, hpair⟩ := Option.map_eq_some_iff.mp hrun
  obtain ⟨hcode, hvalue⟩ := Prod.mk.inj hpair
  let first : Session := { origin := 0x200 }
  have hstart : start 0x200 = .ok first := rfl
  have h : (first.defineAll [("VRAM", -0x8000)]).assembleText storeText = (.ok image.code, _) :=
    assembleText_eq_ok.mpr ⟨storeUnit, image, hread, eq_ok_of_toOption himage, rfl, rfl⟩
  obtain ⟨ss, rows, symbols, -, hss, hlines, hrows, -, hbytes, -, -, hsymbols, -, -⟩ :=
    listing_reproduces_image hstart h
  obtain rfl : storeUnit = ss := Except.ok.inj (hread.symm.trans hss)
  rw [hcode] at h hbytes
  refine ⟨first, _, rows, symbols, hstart, h, hlines, hrows.length_eq, hbytes, ?_, ?_⟩
  · exact (hsymbols _ _).mpr ⟨by decide, hvalue⟩
  · intro value hmem
    exact absurd ((hsymbols _ _).mp hmem).1 (by decide)

end Session

end Toolchain6502.Assembly
