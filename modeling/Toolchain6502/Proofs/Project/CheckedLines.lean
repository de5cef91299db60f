import Toolchain6502.Proofs.Project.EditedSource
import Toolchain6502.Proofs.Source.DecoratedReports
import Toolchain6502.Proofs.Source.LineSources

namespace Toolchain6502.Project

open Assembly Files Source Text

/-- A header that is written for a table of symbols includes nothing. -/
theorem isInclude_of_assemblyHeader {table : NameTable Number} {text : String}
    (hnames : ∀ name ∈ table.map Prod.fst, isSymbol name.toList = true)
    (h : Machine.assemblyHeader (table.map fun (name, value) => { name, value }) [] = .ok text) :
    ∀ line ∈ lines text, isInclude line.toList = false := by
  obtain ⟨ls, hls, h⟩ := bind_eq_ok.mp h
  obtain ⟨sprites, hsprites, h⟩ := bind_eq_ok.mp h
  obtain rfl : [] = sprites := Except.ok.inj hsprites
  obtain rfl := Except.ok.inj h
  have hwritten : ∀ line ∈ ls, ∃ name n, isSymbol name = true ∧
      line.toList = constantLine name ('$' :: (hex 4 n).toList) := by
    intro line hline
    obtain ⟨c, hc, hline⟩ := exists_of_mem_mapM hls hline
    obtain ⟨⟨name, value⟩, hentry, rfl⟩ := List.mem_map.mp hc
    obtain ⟨n, hn⟩ := toList_of_assemblyLine hline
    exact ⟨_, n, hnames name (List.mem_map_of_mem hentry), hn⟩
  have hall : ∀ line ∈
      ["; Auto-generated by chipcade. Do not edit.", "; System constants"] ++ ls ++ [],
      (∀ c ∈ line.toList, isBreak c = false) ∧ isInclude line.toList = false := by
    rw [List.append_nil]
    refine List.forall_mem_append.mpr ⟨?_, fun line hline => ?_⟩
    · have hfixed : ∀ line ∈ ["; Auto-generated by chipcade. Do not edit.", "; System constants"],
          line.toList.any isBreak = false ∧ isInclude line.toList = false := by
        decide +kernel
      exact fun line hline => (hfixed line hline).imp_left fun hbreak => by simpa using hbreak
    · obtain ⟨name, n, hname, htext⟩ := hwritten line hline
      rw [htext]
      exact ⟨fun c hc => isBreak_of_mem_constantLine (isConstantName_of_isSymbol hname) hc, rfl⟩
  rw [Machine.joinLines, lines_join fun line hline => (hall line hline).1]
  exact fun line hline => (hall line hline).2

/-- The text that the prelude is expanded from: the header, or one that is written for the table. -/
inductive PreludePiece (t : Tree) (base : Path) : Option (NameTable Number) → Piece → Prop
  | read {text : String} (h : readIncluded t (headerPath base) = .ok text) :
      PreludePiece t base none (.ofFile (headerPath base) text)
  | written {table : NameTable Number} {text : String}
      (h : Machine.assemblyHeader (table.map fun (name, value) => { name, value }) [] = .ok text) :
      PreludePiece t base (some table) ⟨base, headerPath base, text⟩

section

variable {t : Tree} {content : String} {base file : Path} {constants : Option (NameTable Number)}
  {origin : Int}

theorem visibleConstants_expands {prelude : Traced}
    (h : visibleConstants t base constants = .ok prelude) :
    ∃ u ls, PreludePiece t base constants u ∧ u.Expands t ls ∧ prelude = .ofLines ls := by
  unfold visibleConstants at h
  cases constants with
  | none =>
    obtain ⟨text, ls, hread, hls, rfl⟩ := expandFile_eq_ok h
    exact ⟨_, ls, .read hread, hls, rfl⟩
  | some table =>
    obtain ⟨text, htext, h⟩ := bind_eq_ok.mp h
    obtain ⟨ls, hls, rfl⟩ := expandText_eq_ok (u := ⟨base, headerPath base, text⟩) h
    exact ⟨_, ls, .written (failWith_eq_ok.mp htext), hls, rfl⟩

/-- No line of the prelude is one of the edited file. The path of the file is not that of the
header, the names of a table are symbols, and a header that is read does not lead to the file. -/
structure Apart (t : Tree) (base file : Path) (constants : Option (NameTable Number)) : Prop where
  path : file.resolved t.current ≠ (headerPath base).resolved t.current
  names : ∀ table, constants = some table →
    ∀ name ∈ table.map Prod.fst, isSymbol name.toList = true
  header : constants = none → ∀ text w, readIncluded t (headerPath base) = .ok text →
    Reaches t (.ofFile (headerPath base) text) w → w.canonical t ≠ file.resolved t.current

theorem Apart.canonical_ne (h : Apart t base file constants) {u w : Piece}
    (hu : PreludePiece t base constants u) (hw : Reaches t u w) :
    w.canonical t ≠ file.resolved t.current := by
  cases hu with
  | read hread => exact h.header rfl _ w hread hw
  | @written table text hwritten =>
    have hnone : (⟨base, headerPath base, text⟩ : Piece).directives = [] := by
      refine List.filter_eq_nil_iff.mpr fun line hline => ?_
      simp [isInclude_of_assemblyHeader (h.names table rfl) hwritten line hline]
    rw [eq_of_reaches hnone hw]
    exact h.path.symm

/-- What stands in front of the text: nothing, if it includes the header itself. -/
def preludeOf (t : Tree) (content : String) (base : Path)
    (constants : Option (NameTable Number)) : Except Failure Traced :=
  if includesHeader content then .ok (.ofLines []) else visibleConstants t base constants

theorem editedUnit_eq_ok {unit : Traced} (h : editedUnit t content base file constants = .ok unit) :
    ∃ prelude own, preludeOf t content base constants = .ok prelude ∧
      expandText t [] base file content = .ok own ∧ unit = prelude.merge own := by
  obtain ⟨own, hown, h⟩ := bind_eq_ok.mp h
  unfold preludeOf
  split_ifs at h with hincludes
  · obtain rfl := Except.ok.inj h
    exact ⟨_, own, if_pos hincludes, hown, rfl⟩
  · obtain ⟨prelude, hprelude, h⟩ := bind_eq_ok.mp h
    exact ⟨prelude, own, (if_neg hincludes).trans hprelude, hown, (Except.ok.inj h).symm⟩

theorem Apart.preludeOf (h : Apart t base file constants) {prelude : Traced}
    (hprelude : Project.preludeOf t content base constants = .ok prelude) :
    ∃ ls, prelude = .ofLines ls ∧ prelude.lines = ls.map Prod.fst ∧
      ∀ l ∈ ls, l.2.file ≠ file.resolved t.current := by
  unfold Project.preludeOf at hprelude
  split_ifs at hprelude
  · obtain rfl := Except.ok.inj hprelude
    exact ⟨[], rfl, rfl, by simp⟩
  · obtain ⟨u, ls, hu, hls, rfl⟩ := visibleConstants_expands hprelude
    refine ⟨ls, rfl, hls.lines_ofLines, fun l hl => ?_⟩
    obtain ⟨w, hw, k, hplace, -⟩ := hls.copied l hl
    rw [hplace]
    exact h.canonical_ne hu hw

/-- A complaint has the number of the faulty line where it was written, if this is in the edited
file. -/
theorem complaint_line {ls : List TracedLine} {d : Diagnostic} {c : Complaint}
    (hlines : (Traced.ofLines ls).lines = ls.map Prod.fst)
    (hfail : assembleSource origin (Traced.ofLines ls).text = .error (.assembly d))
    (h : complaint t base file (.ofLines ls) d = .ok c) :
    ∃ (k : Nat) (l : TracedLine), ls[k]? = some l ∧
      d.location = some { file := mergedName, line := (k : Int) + 1 } ∧ d.source = some l.1 ∧
      c.line = if l.2.file = file.resolved t.current then some l.2.line else none := by
  obtain ⟨⟨s, hs⟩, -⟩ := assembleSource_eq_fault hfail
  obtain ⟨k, line, hk, hlocation, hsource⟩ := Session.assembleText_eq_fault hs
  change (Traced.ofLines ls).lines[k]? = some line at hk
  rw [hlines, List.getElem?_map] at hk
  obtain ⟨l, hl, rfl⟩ := Option.map_eq_some_iff.mp hk
  refine ⟨k, l, hl, hlocation, hsource, ?_⟩
  have hmerged : ':' ∉ mergedName.toList := by decide
  obtain ⟨o, ho, h⟩ := bind_eq_ok.mp h
  by_cases hshort : k + 1 < 10 ^ maxDecimalDigits
  · have hreads : errorLine? d.render = .ok (some (k + 1)) := by
      rw [Diagnostic.render, hlocation]
      exact errorLine?_report hmerged hshort _ _ _
    obtain rfl : o = some l.2 := by
      rw [errorOrigin?, hreads, ok_bind, Traced.origins_ofLines] at ho
      simpa [hl, eq_comm] using ho
    obtain ⟨message, -, h⟩ := bind_eq_ok.mp h
    obtain ⟨q, hq, h⟩ := bind_eq_ok.mp h
    obtain rfl := Except.ok.inj h
    rw [C.canonical_eq_ok hq]
  · -- a number that is too long to be read ends the check with a failure
    obtain ⟨e, he⟩ : ∃ e, errorOrigin? d.render (Traced.ofLines ls).origins = .error e := by
      rw [Diagnostic.render, hlocation]
      exact errorOrigin?_report_of_long hmerged hshort _ _ _ _
    exact absurd (he.symm.trans ho) (by simp)

theorem checkSource_eq_some {c : Complaint}
    (h : checkSource t content base file constants origin = .ok (some c)) :
    (∃ d, editedUnit t content base file constants = .error (.assembly d) ∧ c = ⟨none, d.render⟩) ∨
    ∃ unit d, editedUnit t content base file constants = .ok unit ∧
      assembleSource origin unit.text = .error (.assembly d) ∧
      complaint t base file unit d = .ok c := by
  unfold checkSource at h
  split at h
  · rename_i d hunit
    exact .inl ⟨d, hunit, (Option.some.inj (Except.ok.inj h)).symm⟩
  · simp at h
  · rename_i unit hunit
    split at h
    · rename_i d hfail
      refine .inr ⟨unit, d, hunit, hfail, ?_⟩
      cases hcomplaint : complaint t base file unit d with
      | error e => simp [hcomplaint, Except.map] at h
      | ok c' => simpa [hcomplaint, Except.map] using h
    · simp at h
    · simp at h

theorem expandable_of_expandText {u : Piece} {unit : Traced}
    (h : expandText t [] u.base u.file u.text = .ok unit) : Expandable t [] u := by
  obtain ⟨⟨unit', after⟩, hvisiting, -⟩ := bind_eq_ok.mp h
  obtain ⟨ls, hls, -⟩ := expandVisiting_eq_ok.mp hvisiting
  exact expandable_of_expandWithin hls

end

/-- A complaint about the merged line at an index, in front of which the prelude has some lines. It
has a number if the faulty line belongs to a line of the text that is no directive, and this line is
then the faulty one. -/
structure Complaint.PointsAt (c : Complaint) (t : Tree) (u : Piece) (front k : Nat)
    (line : String) : Prop where
  shown : ∀ m, c.line = some m → 1 ≤ m ∧ m ≤ (lines u.text).length ∧
    (lines u.text)[(m - 1).toNat]? = some line
  prelude : k < front → c.line = none
  included : ∀ j n own, k = front + j → u.BelongsTo t j n → (lines u.text)[n]? = some own →
    isInclude own.toList = true → c.line = none
  own : ∀ j n own, k = front + j → u.BelongsTo t j n → (lines u.text)[n]? = some own →
    isInclude own.toList = false → c.line = some ((n : Int) + 1)

/-- Only the lines of the text itself have its path as their origin. -/
theorem pointsAt_of_origin {t : Tree} {u : Piece} {before ls : List TracedLine} {c : Complaint}
    (hforeign : ∀ l ∈ before, l.2.file ≠ u.canonical t) (hexpandable : Expandable t [] u)
    (hls : u.Expands t ls) {k : Nat} {l : TracedLine} (hl : (before ++ ls)[k]? = some l)
    (hc : c.line = if l.2.file = u.canonical t then some l.2.line else none) :
    c.PointsAt t u before.length k l.1 := by
  have hinner {j : Nat} (hk : k = before.length + j) : ls[j]? = some l := by
    rw [hk, List.getElem?_append_right (by omega), Nat.add_sub_cancel_left] at hl
    exact hl
  have hprelude : k < before.length → c.line = none := by
    intro hk
    rw [List.getElem?_append_left hk] at hl
    rw [hc, if_neg (hforeign l (List.mem_of_getElem? hl))]
  have hincluded {j n : Nat} {own : String} (hk : k = before.length + j)
      (hbelongs : u.BelongsTo t j n) (hown : (lines u.text)[n]? = some own)
      (hline : isInclude own.toList = true) : c.line = none := by
    obtain ⟨l', v, w, hl', hv, hw, i, hplace, -⟩ := hbelongs.copied hls hown hline
    obtain rfl := Option.some.inj ((hinner hk).symm.trans hl')
    have hfile : l.2.file ≠ u.canonical t := by
      rw [hplace]
      exact hexpandable.canonical_ne hv hw
    rw [hc, if_neg hfile]
  have hown {j n : Nat} {own : String} (hk : k = before.length + j) (hbelongs : u.BelongsTo t j n)
      (hown : (lines u.text)[n]? = some own) (hline : isInclude own.toList = false) :
      own = l.1 ∧ c.line = some ((n : Int) + 1) := by
    obtain rfl := Option.some.inj ((hinner hk).symm.trans (hbelongs.getElem?_own hls hown hline))
    exact ⟨rfl, hc.trans (if_pos rfl)⟩
  refine ⟨fun m hm => ?_, hprelude, fun j n own hk hbelongs hget hline =>
    hincluded hk hbelongs hget hline, fun j n own hk hbelongs hget hline =>
    (hown hk hbelongs hget hline).2⟩
  by_cases hk : k < before.length
  · simp [hprelude hk] at hm
  · have hk : k = before.length + (k - before.length) := by omega
    obtain ⟨hj, -⟩ := List.getElem?_eq_some_iff.mp (hinner hk)
    obtain ⟨n, own, hget, hbelongs⟩ := hls.exists_belongsTo hj
    cases hline : isInclude own.toList with
    | true => simp [hincluded hk hbelongs hget hline] at hm
    | false =>
      obtain ⟨rfl, hnumber⟩ := hown hk hbelongs hget hline
      obtain rfl : (n : Int) + 1 = m := Option.some.inj (hnumber.symm.trans hm)
      obtain ⟨hn, -⟩ := List.getElem?_eq_some_iff.mp hget
      have hindex : ((n : Int) + 1 - 1).toNat = n := by omega
      refine ⟨by omega, by omega, ?_⟩
      rw [hindex]
      exact hget

/-- The check of an edited text points at the right line. A complaint is about an include that
fails, and then has no number; or the assembler failed on a line of the merged text. The complaint
has a number just when that line is one of the text itself, and the number is that of the line. -/
theorem checkSource_points {t : Tree} {content : String} {base file : Path}
    {constants : Option (NameTable Number)} (hapart : Apart t base file constants) {origin : Int}
    {c : Complaint} (h : checkSource t content base file constants origin = .ok (some c)) :
    (c.line = none ∧ ∃ d, editedUnit t content base file constants = .error (.assembly d)) ∨
    ∃ (prelude unit : Traced) (d : Diagnostic) (k : Nat) (line : String),
      preludeOf t content base constants = .ok prelude ∧
      expandText t [] base file content = .ok unit ∧
      assembleSource origin (prelude.text ++ unit.text) = .error (.assembly d) ∧
      d.location = some { file := mergedName, line := (k : Int) + 1 } ∧ d.source = some line ∧
      (prelude.lines ++ unit.lines)[k]? = some line ∧
      c.PointsAt t ⟨base, file, content⟩ prelude.lines.length k line := by
  rcases checkSource_eq_some h with ⟨d, hunit, rfl⟩ | ⟨merged, d, hmerged, hfail, hcomplaint⟩
  · exact .inl ⟨rfl, d, hunit⟩
  right
  obtain ⟨prelude, unit, hprelude, hunit, rfl⟩ := editedUnit_eq_ok hmerged
  have hclosed : prelude.Closed := by
    obtain ⟨ls, rfl, -⟩ := hapart.preludeOf hprelude
    exact Traced.closed_ofLines ls
  obtain ⟨before, rfl, hbefore, hforeign⟩ := hapart.preludeOf hprelude
  obtain ⟨ls, hls, rfl⟩ := expandText_eq_ok (u := ⟨base, file, content⟩) hunit
  have hexpandable := expandable_of_expandText (u := ⟨base, file, content⟩) hunit
  have hlines := Traced.lines_append_of_closed hclosed (.ofLines ls)
  rw [hbefore, hls.lines_ofLines, ← List.map_append] at hlines
  have htext : (Traced.ofLines before).text ++ (Traced.ofLines ls).text =
      (Traced.ofLines (before ++ ls)).text := by
    rw [← Traced.ofLines_append, Traced.merge_of_closed hclosed]
  rw [Traced.ofLines_append] at hfail hcomplaint
  rw [htext] at hlines
  obtain ⟨k, l, hl, hlocation, hsource, hline⟩ := complaint_line hlines hfail hcomplaint
  refine ⟨_, _, d, k, l.1, hprelude, hunit, htext ▸ hfail, hlocation, hsource, ?_, ?_⟩
  · rw [hbefore, hls.lines_ofLines, ← List.map_append, List.getElem?_map, hl]
    rfl
  · rw [hbefore, List.length_map]
    exact pointsAt_of_origin hforeign hexpandable hls hl hline

/-- A text that includes a file, uses a constant of the prelude, and is faulty in its last line. -/
def faultyPiece : Piece :=
  ⟨Path.ofText ".", Path.ofText "main.asm", ".include \"b.inc\"\nSTA VRAM\nXYZ\n"⟩

theorem faultyPiece_pointed :
    Apart includedTree faultyPiece.base faultyPiece.file (some [("VRAM", .whole 0x2000)]) ∧
    checkSource includedTree faultyPiece.text faultyPiece.base faultyPiece.file
        (some [("VRAM", .whole 0x2000)]) 0x200 =
      .ok (some ⟨some 3, "main.asm:3: error: unknown mnemonic 'XYZ'\n    XYZ"⟩) ∧
    ∃ (prelude unit : Traced) (d : Diagnostic) (line : String),
      assembleSource 0x200 (prelude.text ++ unit.text) = .error (.assembly d) ∧
      d.source = some line ∧ (lines faultyPiece.text)[2]? = some line := by
  have hapart : Apart includedTree faultyPiece.base faultyPiece.file
      (some [("VRAM", .whole 0x2000)]) := by
    refine ⟨by decide +kernel, ?_, by simp⟩
    rintro table ⟨⟩
    decide +kernel
  have hcheck : checkSource includedTree faultyPiece.text faultyPiece.base faultyPiece.file
      (some [("VRAM", .whole 0x2000)]) 0x200 =
        .ok (some ⟨some 3, "main.asm:3: error: unknown mnemonic 'XYZ'\n    XYZ"⟩) :=
    eq_ok_of_toOption (by decide +kernel)
  refine ⟨hapart, hcheck, ?_⟩
  rcases checkSource_points hapart hcheck with ⟨hnone, -⟩ | ⟨prelude, unit, d, k, line, hfound⟩
  · simp at hnone
  · obtain ⟨-, -, hfail, -, hsource, -, hpoints⟩ := hfound
    exact ⟨prelude, unit, d, line, hfail, hsource, (hpoints.shown 3 rfl).2.2⟩

-- A header that is read and includes the edited file brings in the file as it is on disk, and the
-- number is then one of a line there.
example : (checkSource
    { entries := [(["w"], .directory), (["w", "include"], .directory),
      (["w", "include", "chipcade.inc"], .file (encodeUtf8 ".include \"../main.asm\"\n".toList)),
      (["w", "main.asm"], .file (encodeUtf8 "NOP\nXYZ\n".toList))], current := ["w"] }
    "NOP\n" (Path.ofText ".") (Path.ofText "main.asm") none 0x200).toOption.map
      (Option.map Complaint.line) = some (some (some 2)) := by
  decide +kernel

end Toolchain6502.Project
