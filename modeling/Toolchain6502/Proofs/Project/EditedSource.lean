import Toolchain6502.Project.Check
import Toolchain6502.Proofs.Assembly.DefinedNames
import Toolchain6502.Proofs.Machine.AssemblyHeader
import Toolchain6502.Proofs.Project.ByteProvenance

namespace Toolchain6502.Project

open Assembly Files Source Text Relation

def headerPath (base : Path) : Path := (base.child "include").child assemblyHeaderName

/-- Expanding a text reads the header, for itself or for a file that it includes. -/
def ReadsHeader (t : Tree) (u : Piece) : Prop :=
  ∃ w, TransGen (Includes t) u w ∧ w.canonical t = (headerPath u.base).resolved t.current

/-- A directive of the text itself names the header. -/
def NamesHeader (t : Tree) (u : Piece) : Prop :=
  ∃ line ∈ u.directives, ∃ p, u.target? line = some p ∧
    p.resolved t.current = (headerPath u.base).resolved t.current

def HeaderDefines (t : Tree) (base : Path) (name : String) : Prop :=
  ∃ text, fileText? t ((headerPath base).resolved t.current) = some text ∧
    ∃ line ∈ lines text, isInclude line.toList = false ∧ name ∈ definedBy line

def assembleAlone (t : Tree) (u : Piece) (origin : Int) : Except Failure Image := do
  let unit ← expandText t [] u.base u.file u.text
  assembleSource origin unit.text

theorem headerPath_resolved (current : List String) (base : Path) :
    ((headerPath base).resolved current).parts =
      (base.resolved current).parts ++ ["include", assemblyHeaderName] := by
  have hdirectory : Path.ofText "include" = ⟨.relative, ["include"]⟩ := by decide
  have hname : Path.ofText assemblyHeaderName = ⟨.relative, [assemblyHeaderName]⟩ := by decide
  have hbelow : ".." ∉ ["include", assemblyHeaderName] := by decide
  unfold headerPath Path.child
  rw [hdirectory, hname, Path.resolved_join rfl, Path.resolved_join rfl, ← Path.normalize_append]
  exact Path.normalize_of_not_mem hbelow _

theorem infix_of_includeTarget? {line target : List Char} (h : includeTarget? line = some target) :
    target <:+: trimLeft line := by
  unfold includeTarget? at h
  split at h
  · rename_i rest hrest
    split at h
    · rename_i found c after hspan
      obtain rfl := Option.some.inj h
      rw [List.span_eq_takeWhile_dropWhile] at hspan
      obtain ⟨rfl, -⟩ := Prod.mk.inj hspan
      have hquoted : rest <:+ trimLeft line := by
        apply List.IsSuffix.trans (List.suffix_cons '"' rest)
        rw [← hrest]
        exact (List.dropWhile_suffix isBlank).trans (List.drop_suffix _ _)
      exact (List.takeWhile_prefix _).isInfix.trans hquoted.isInfix
    · simp at h
  · simp at h

/-- A directive that names the header, from whatever directory, mentions it. -/
theorem includesHeader_of_namesHeader {t : Tree} {u : Piece} (h : NamesHeader t u) :
    includesHeader u.text = true := by
  obtain ⟨line, hline, p, htarget, hplace⟩ := h
  obtain ⟨hmem, hinclude⟩ := Piece.mem_directives.mp hline
  obtain ⟨target, hread, rfl⟩ := Option.map_eq_some_iff.mp htarget
  have hparts := headerPath_resolved t.current u.base
  rw [← hplace] at hparts
  have hname : assemblyHeaderName ∈ (Path.ofText (String.ofList target)).parts :=
    Path.mem_parts_of_resolved_join hparts
  have hpart : assemblyHeaderName.toList <:+: target := by
    simp only [Path.ofText, String.toList_ofList, List.mem_map, List.mem_filter] at hname
    obtain ⟨part, ⟨hpart, -⟩, heq⟩ := hname
    rw [← heq, String.toList_ofList]
    exact Path.infix_of_mem_split hpart
  apply List.any_eq_true.mpr
  refine ⟨line, hmem, ?_⟩
  rw [hinclude, Bool.true_and]
  exact isSome_cut?_of_infix (hpart.trans (infix_of_includeTarget? hread))

section

variable {t : Tree} {content : String} {base file : Path} {constants : Option (NameTable Number)}
  {origin : Int} {prelude : Traced}

theorem checkSource_eq_none :
    checkSource t content base file constants origin = .ok none ↔
      ∃ unit image, editedUnit t content base file constants = .ok unit ∧
        assembleSource origin unit.text = .ok image := by
  unfold checkSource
  cases hunit : editedUnit t content base file constants with
  | error e => cases e <;> simp
  | ok unit =>
    cases himage : assembleSource origin unit.text with
    | ok image => simp [himage]
    | error e =>
      cases e with
      | assembly d =>
        cases hcomplaint : complaint t base file unit d <;> simp [himage, hcomplaint, Except.map]
      | _ => simp [himage]

theorem expandText_eq_ok {u : Piece} {unit : Traced}
    (h : expandText t [] u.base u.file u.text = .ok unit) :
    ∃ ls, u.Expands t ls ∧ unit = .ofLines ls := by
  obtain ⟨⟨unit', after⟩, hvisiting, h⟩ := bind_eq_ok.mp h
  obtain rfl : unit' = unit := Except.ok.inj h
  obtain ⟨ls, hls, rfl⟩ := expandVisiting_eq_ok.mp hvisiting
  exact ⟨ls, expandWithin_expands hls, rfl⟩

/-- The lines that a text sees without naming them are those of the header, or of one that is
written for the table. -/
theorem visibleConstants_eq_ok (h : visibleConstants t base constants = .ok prelude) :
    ∃ (u : Piece) (ls : List TracedLine), u.Expands t ls ∧ prelude = .ofLines ls ∧
      match constants with
      | none => readIncluded t (headerPath base) = .ok u.text
      | some table => Machine.assemblyHeader (table.map fun (name, value) => { name, value }) [] =
          .ok u.text := by
  unfold visibleConstants at h
  cases constants with
  | none =>
    obtain ⟨text, ls, hread, hls, rfl⟩ := expandFile_eq_ok h
    exact ⟨_, ls, hls, rfl, hread⟩
  | some table =>
    obtain ⟨text, htext, h⟩ := bind_eq_ok.mp h
    obtain ⟨ls, hls, rfl⟩ := expandText_eq_ok (u := ⟨base, headerPath base, text⟩) h
    exact ⟨_, ls, hls, rfl, failWith_eq_ok.mp htext⟩

theorem closed_of_visibleConstants (h : visibleConstants t base constants = .ok prelude) :
    prelude.Closed := by
  obtain ⟨u, ls, -, rfl, -⟩ := visibleConstants_eq_ok h
  exact Traced.closed_ofLines ls

theorem checkSource_eq_none_of_includesHeader (h : includesHeader content = true) :
    checkSource t content base file constants origin = .ok none ↔
      ∃ image, assembleAlone t ⟨base, file, content⟩ origin = .ok image := by
  have hunit : editedUnit t content base file constants = expandText t [] base file content := by
    unfold editedUnit
    cases expandText t [] base file content <;> simp [h]
  simp only [checkSource_eq_none, hunit, assembleAlone, bind_eq_ok]
  exact exists_comm

theorem checkSource_eq_none_of_not_includesHeader (h : includesHeader content = false) :
    checkSource t content base file constants origin = .ok none ↔
      ∃ prelude unit image, visibleConstants t base constants = .ok prelude ∧
        expandText t [] base file content = .ok unit ∧
        assembleSource origin (prelude.text ++ unit.text) = .ok image := by
  simp only [checkSource_eq_none, editedUnit, h, Bool.false_eq_true, if_false, bind_eq_ok,
    pure_eq_ok, Except.ok.injEq]
  constructor
  · rintro ⟨merged, image, ⟨unit, hunit, prelude, hprelude, rfl⟩, himage⟩
    rw [Traced.merge_of_closed (closed_of_visibleConstants hprelude)] at himage
    exact ⟨prelude, unit, image, hprelude, hunit, himage⟩
  · rintro ⟨prelude, unit, image, hprelude, hunit, himage⟩
    refine ⟨_, image, ⟨unit, hunit, prelude, hprelude, rfl⟩, ?_⟩
    rw [Traced.merge_of_closed (closed_of_visibleConstants hprelude)]
    exact himage

end

theorem mem_lines_joinLines {ls : List String} {line : String} (hmem : line ∈ ls)
    (hline : ∀ c ∈ line.toList, isBreak c = false) : line ∈ lines (Machine.joinLines ls) := by
  induction ls with
  | nil => simp at hmem
  | cons first rest ih =>
    have hjoin : Machine.joinLines (first :: rest) = first ++ "\n" ++ Machine.joinLines rest := by
      simp [Machine.joinLines]
    rw [hjoin]
    rcases List.mem_cons.mp hmem with rfl | hmem
    · have htext : (line ++ "\n" ++ Machine.joinLines rest).toList =
          line.toList ++ '\n' :: (Machine.joinLines rest).toList := by simp
      rw [lines, htext, splitLines_append_break hline, List.map_cons, String.ofList_toList]
      exact List.mem_cons_self
    · rw [Traced.lines_append_feed]
      exact List.mem_append_right _ (ih hmem)

theorem toList_of_assemblyLine {name line : String} {value : Number}
    (h : Machine.Constant.assemblyLine { name, value } = .ok line) :
    ∃ n : Int, line.toList = constantLine name.toList ('$' :: (hex 4 n).toList) := by
  cases hint : value.int? with
  | none =>
    have hdigits : value.hexText 4 = .error .noHexForm := by simp [Number.hexText, hint]
    simp [Machine.Constant.assemblyLine, Machine.Constant.line, hdigits] at h
  | some n =>
    have hdigits : value.hexText 4 = .ok (hex 4 n) := by simp [Number.hexText, hint]
    have hwritten : Machine.Constant.assemblyLine { name, value } =
        .ok (".const" ++ " " ++ name ++ " " ++ "$" ++ hex 4 n) := by
      simp only [Machine.Constant.assemblyLine, Machine.Constant.line, hdigits]
      rfl
    obtain rfl := Except.ok.inj (hwritten.symm.trans h)
    exact ⟨n, by simp [constantLine, constantWord]⟩

theorem isBreak_of_mem_constantLine {name : List Char} (hname : isConstantName name = true) {n : Int}
    {c : Char} (hc : c ∈ constantLine name ('$' :: (hex 4 n).toList)) : isBreak c = false := by
  simp only [constantLine, List.mem_append, List.mem_cons] at hc
  rcases hc with hc | rfl | hc | rfl | rfl | hc
  · exact isBreak_of_isInk (isInk_of_mem_constantWord hc)
  · decide
  · exact (plain_of_isConstantName hname hc).2.1
  · decide
  · decide
  · rcases mem_hex hc with rfl | hc
    · decide
    · exact isBreak_of_isInk (isInk_of_isHexDigit hc)

/-- Every name of the table that can be one of a constant has a line of its own. -/
theorem exists_line_of_assemblyHeader {table : NameTable Number} {text name : String}
    (h : Machine.assemblyHeader (table.map fun (name, value) => { name, value }) [] = .ok text)
    (hmem : name ∈ table.map Prod.fst) (hname : isConstantName name.toList = true) :
    ∃ line ∈ lines text, ∃ value, line.toList = constantLine name.toList value := by
  obtain ⟨ls, hls, h⟩ := bind_eq_ok.mp h
  obtain ⟨sprites, -, h⟩ := bind_eq_ok.mp h
  obtain rfl := Except.ok.inj h
  obtain ⟨⟨name, value⟩, hentry, rfl⟩ := List.mem_map.mp hmem
  obtain ⟨i, hi⟩ := List.getElem?_of_mem (List.mem_map_of_mem hentry)
  obtain ⟨line, hline, hget⟩ := (mapM_eq_ok hls).2 i _ hi
  obtain ⟨n, hwritten⟩ := toList_of_assemblyLine hline
  refine ⟨line, mem_lines_joinLines ?_ ?_, _, hwritten⟩
  · apply List.mem_append_left
    exact List.mem_append_right _ (List.mem_of_getElem? hget)
  · intro c hc
    rw [hwritten] at hc
    exact isBreak_of_mem_constantLine hname hc

theorem fileText?_of_included {t : Tree} (ht : t.Grounded) {u w : Piece}
    (h : TransGen (Includes t) u w) : fileText? t (w.canonical t) = some w.text := by
  obtain ⟨v, -, hw⟩ := TransGen.tail'_iff.mp h
  obtain ⟨-, -, p, text, -, hread, rfl⟩ := hw
  exact fileText?_of_readText ht hread

theorem mem_lines_of_reaches {t : Tree} {u w : Piece} {ls : List TracedLine} (h : u.Expands t ls)
    (hw : Reaches t u w) {line : String} (hmem : line ∈ lines w.text)
    (hown : isInclude line.toList = false) : line ∈ (Traced.ofLines ls).lines := by
  rw [h.lines_ofLines]
  exact h.mem_of_reaches hw hmem hown

/-- What the header defines is defined by a text that reads it. -/
theorem exists_line_of_readsHeader {t : Tree} (ht : t.Grounded) {u : Piece} {unit : Traced}
    (hreads : ReadsHeader t u) (hunit : expandText t [] u.base u.file u.text = .ok unit)
    {name : String} (hheader : HeaderDefines t u.base name) :
    ∃ line ∈ unit.lines, name ∈ definedBy line := by
  obtain ⟨w, hw, hplace⟩ := hreads
  obtain ⟨text, htext, line, hmem, hown, hname⟩ := hheader
  have hfile := fileText?_of_included ht hw
  rw [hplace, htext] at hfile
  obtain rfl := Option.some.inj hfile
  obtain ⟨ls, hls, rfl⟩ := expandText_eq_ok hunit
  exact ⟨line, mem_lines_of_reaches hls hw.to_reflTransGen hmem hown, hname⟩

/-- What the header defines is defined by the prelude too, if the table has the name. -/
theorem exists_line_of_visibleConstants {t : Tree} (ht : t.Grounded) {base : Path}
    {constants : Option (NameTable Number)} {prelude : Traced}
    (hprelude : visibleConstants t base constants = .ok prelude) {name : String}
    (hheader : HeaderDefines t base name)
    (htable : ∀ table, constants = some table → name ∈ table.map Prod.fst) :
    ∃ line ∈ prelude.lines, ∀ contents, readContents line.toList = .ok contents →
      name ∈ definedBy line := by
  obtain ⟨u, ls, hls, rfl, hsource⟩ := visibleConstants_eq_ok hprelude
  obtain ⟨text, htext, line, hmem, hown, hname⟩ := hheader
  cases constants with
  | none =>
    have hfile := fileText?_of_readText ht hsource
    rw [htext] at hfile
    obtain rfl := Option.some.inj hfile
    exact ⟨line, mem_lines_of_reaches hls .refl hmem hown, fun _ _ => hname⟩
  | some table =>
    have hconstant := isConstantName_of_definedBy hname
    obtain ⟨written, hwritten, value, hvalue⟩ :=
      exists_line_of_assemblyHeader hsource (htable table rfl) hconstant
    have hcopied : isInclude written.toList = false := by
      rw [hvalue]
      rfl
    refine ⟨written, mem_lines_of_reaches hls .refl hwritten hcopied, ?_⟩
    intro contents hread
    have hdefined := mem_definedBy_constantLine hconstant hvalue hread
    rwa [String.ofList_toList] at hdefined

/-- A text is not assembled behind another one that defines one of its names. -/
theorem not_assembled_of_shared {first second : Traced} (hclosed : first.Closed) {name : String}
    (hfirst : ∃ line ∈ first.lines, ∀ contents, readContents line.toList = .ok contents →
      name ∈ definedBy line)
    (hsecond : ∃ line ∈ second.lines, name ∈ definedBy line) (origin : Int) (image : Image) :
    assembleSource origin (first.text ++ second.text) ≠ .ok image := by
  intro himage
  obtain ⟨line, hline, hname⟩ := hfirst
  have hnodup := nodup_of_assembleSource himage
  obtain ⟨-, -, ss, hread, -⟩ := assembleSource_eq_ok.mp himage
  have hlines := Traced.lines_append_of_closed hclosed second
  obtain ⟨contents, hcontents⟩ := exists_contents_of_readLinesFrom hread
    (hlines ▸ List.mem_append_left _ hline)
  rw [hlines, List.flatMap_append] at hnodup
  have hbefore := List.mem_flatMap.mpr ⟨line, hline, hname contents hcontents⟩
  exact (List.nodup_append.mp hnodup).2.2 name hbefore name (List.mem_flatMap.mpr hsecond) rfl

/-- The check of a text that reads the header. If a line of the text itself mentions the header, as
it does where it names it, the text is accepted just when it is assembled alone. If none does, the
prelude is assembled in front of it, and where the header defines a name, which the table has if
there is one, the text is never accepted. -/
theorem checkSource_agrees {t : Tree} (ht : t.Grounded) {content : String} {base file : Path}
    (hreads : ReadsHeader t ⟨base, file, content⟩) (constants : Option (NameTable Number))
    (origin : Int) :
    (NamesHeader t ⟨base, file, content⟩ → includesHeader content = true) ∧
    (includesHeader content = true →
      (checkSource t content base file constants origin = .ok none ↔
        ∃ image, assembleAlone t ⟨base, file, content⟩ origin = .ok image)) ∧
    (includesHeader content = false →
      (checkSource t content base file constants origin = .ok none ↔
        ∃ prelude unit image, visibleConstants t base constants = .ok prelude ∧
          expandText t [] base file content = .ok unit ∧
          assembleSource origin (prelude.text ++ unit.text) = .ok image) ∧
      ∀ name, HeaderDefines t base name →
        (∀ table, constants = some table → name ∈ table.map Prod.fst) →
          checkSource t content base file constants origin ≠ .ok none) := by
  refine ⟨includesHeader_of_namesHeader, checkSource_eq_none_of_includesHeader, ?_⟩
  intro hincludes
  refine ⟨checkSource_eq_none_of_not_includesHeader hincludes, ?_⟩
  intro name hheader htable hnone
  obtain ⟨prelude, unit, image, hprelude, hunit, himage⟩ :=
    (checkSource_eq_none_of_not_includesHeader hincludes).mp hnone
  have hbefore := exists_line_of_visibleConstants ht hprelude hheader htable
  have hafter := exists_line_of_readsHeader ht hreads hunit hheader
  exact not_assembled_of_shared (closed_of_visibleConstants hprelude) hbefore hafter origin image
    himage

def headerTree : Tree where
  entries := [(["w"], .directory), (["w", "include"], .directory),
    (["w", "include", "chipcade.inc"], .file (encodeUtf8 ".const VRAM $2000\n".toList)),
    (["w", "common.inc"], .file (encodeUtf8 ".include \"include/chipcade.inc\"\n".toList))]
  current := ["w"]

def directPiece : Piece :=
  ⟨Path.ofText ".", Path.ofText "main.asm", ".include \"include/chipcade.inc\"\nSTA VRAM\n"⟩

def nestedPiece : Piece :=
  ⟨Path.ofText ".", Path.ofText "main.asm", ".include \"common.inc\"\nSTA VRAM\n"⟩

theorem readIncluded_headerTree :
    readIncluded headerTree (Path.ofText "include/chipcade.inc") = .ok ".const VRAM $2000\n" :=
  eq_ok_of_toOption (by decide +kernel)

theorem directText_agrees : headerTree.Grounded ∧ ReadsHeader headerTree directPiece ∧
    NamesHeader headerTree directPiece ∧
    checkSource headerTree directPiece.text directPiece.base directPiece.file none 0x200 =
      .ok none := by
  have hgrounded : headerTree.Grounded := by decide
  have htarget : directPiece.target? ".include \"include/chipcade.inc\"" =
      some (Path.ofText "include/chipcade.inc") := by decide +kernel
  have hdirective : ".include \"include/chipcade.inc\"" ∈ directPiece.directives := by
    decide +kernel
  have hplace : (Path.ofText "include/chipcade.inc").resolved headerTree.current =
      (headerPath directPiece.base).resolved headerTree.current := by decide +kernel
  have hreads : ReadsHeader headerTree directPiece :=
    ⟨_, .single ⟨_, hdirective, _, _, htarget, readIncluded_headerTree, rfl⟩, hplace⟩
  have hnames : NamesHeader headerTree directPiece := ⟨_, hdirective, _, htarget, hplace⟩
  have halone : ∃ image, assembleAlone headerTree directPiece 0x200 = .ok image :=
    exists_eq_ok_of_isSome (by decide +kernel)
  obtain ⟨hincludes, hagrees, -⟩ := checkSource_agrees hgrounded hreads none 0x200
  exact ⟨hgrounded, hreads, hnames, (hagrees (hincludes hnames)).mpr halone⟩

/-- The header is included by the file that the text includes, so the text is assembled alone. The
check puts the header in front once more and refuses the text. -/
theorem nestedText_refused : ReadsHeader headerTree nestedPiece ∧
    (assembleAlone headerTree nestedPiece 0x200).toOption.map Image.code =
      some [0x8D, 0x00, 0x20] ∧
    checkSource headerTree nestedPiece.text nestedPiece.base nestedPiece.file none 0x200 =
      .ok (some ⟨none, "include/chipcade.inc:1: error: duplicate symbol 'VRAM'\n" ++
        "    .const VRAM $2000\nhint: 'VRAM' was first defined at <merged>:1"⟩) := by
  have hcommon : readIncluded headerTree (Path.ofText "common.inc") =
      .ok ".include \"include/chipcade.inc\"\n" := eq_ok_of_toOption (by decide +kernel)
  have hfirst : Includes headerTree nestedPiece
      (.ofFile (Path.ofText "common.inc") ".include \"include/chipcade.inc\"\n") :=
    ⟨".include \"common.inc\"", by decide +kernel, _, _, by decide +kernel, hcommon, rfl⟩
  have hsecond : Includes headerTree
      (.ofFile (Path.ofText "common.inc") ".include \"include/chipcade.inc\"\n")
      (.ofFile (Path.ofText "include/chipcade.inc") ".const VRAM $2000\n") :=
    ⟨".include \"include/chipcade.inc\"", by decide +kernel, _, _, by decide +kernel,
      readIncluded_headerTree, rfl⟩
  refine ⟨⟨_, .tail (.single hfirst) hsecond, by decide +kernel⟩, by decide +kernel, ?_⟩
  exact eq_ok_of_toOption (by decide +kernel)

end Toolchain6502.Project
