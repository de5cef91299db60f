import Toolchain6502.Proofs.Assembly.ByteLines
import Toolchain6502.Proofs.C.Attribution
import Toolchain6502.Proofs.C.Names
import Toolchain6502.Proofs.Project.Stages
import Toolchain6502.Proofs.Source.Expansion
import Toolchain6502.Proofs.Source.MergedUnits

namespace Toolchain6502

open Files Source Text

namespace Source.Traced

theorem ofLines_append (xs ys : List TracedLine) :
    (ofLines xs).merge (ofLines ys) = ofLines (xs ++ ys) := by
  rw [merge_of_closed (closed_ofLines xs)]
  simp [ofLines, String.join_append]

end Source.Traced

namespace Project

open Assembly

variable {p : Path} {t : Tree} {unit : Traced} {ps : Paths} {constants : NameTable Number}

def assemblyPart (t : Tree) (ps : Paths) : Except Failure Traced :=
  if t.holds ps.mainAssembly then expandFile t [] ps.mainAssembly else .ok (.ofLines [])

def cPart (t : Tree) (ps : Paths) (constants : NameTable Number) : Except Failure Traced :=
  match ps.cSources t with
  | [] => .ok (.ofLines [])
  | sources => compileSources t ps constants sources

theorem expandFile_eq_ok (h : expandFile t [] p = .ok unit) :
    ∃ text ls, readIncluded t p = .ok text ∧ (Piece.ofFile p text).Expands t ls ∧
      unit = .ofLines ls := by
  obtain ⟨⟨unit', after⟩, hvisiting, h⟩ := bind_eq_ok.mp h
  obtain rfl : unit' = unit := Except.ok.inj h
  obtain ⟨text, hread, hvisiting⟩ := bind_eq_ok.mp hvisiting
  obtain ⟨ls, hls, rfl⟩ := (expandVisiting_eq_ok (u := .ofFile p text)).mp hvisiting
  exact ⟨text, ls, hread, expandWithin_expands hls, rfl⟩

theorem compileSources_eq_ok {sources : List Path}
    (h : compileSources t ps constants sources = .ok unit) :
    ∃ files compiled, sources.mapM (readCSource t ps) = .ok files ∧
      C.compile t.current { constants } files = .ok compiled ∧
      unit = .ofLines (compiled.lines.map fun l => (l.1.text, l.2)) := by
  obtain ⟨files, hfiles, h⟩ := bind_eq_ok.mp h
  obtain ⟨compiled, hcompiled, h⟩ := bind_eq_ok.mp h
  exact ⟨files, compiled, hfiles, hcompiled, (Except.ok.inj h).symm⟩

/-- The merged source is one part after the other. -/
theorem collect_eq_ok (h : collect t ps constants = .ok unit) :
    ∃ assembly c, assemblyPart t ps = .ok assembly ∧ cPart t ps constants = .ok c ∧
      unit = assembly.merge c := by
  obtain ⟨found, hfound, h⟩ := bind_eq_ok.mp h
  unfold assemblyPart cPart
  rw [holds_of_finds hfound]
  cases found with
  | true =>
    cases hsources : ps.cSources t with
    | nil =>
      simp only [hsources, if_true] at h
      obtain ⟨text, ls, -, -, rfl⟩ := expandFile_eq_ok h
      refine ⟨_, _, by simpa using h, rfl, ?_⟩
      rw [Traced.ofLines_append, List.append_nil]
    | cons source rest =>
      simp only [hsources, if_true] at h
      -- The C files are compiled first, although their part is the second.
      obtain ⟨c, hc, h⟩ := bind_eq_ok.mp h
      obtain ⟨assembly, hexpanded, h⟩ := bind_eq_ok.mp h
      exact ⟨assembly, c, by simpa using hexpanded, hc, (Except.ok.inj h).symm⟩
  | false =>
    cases hsources : ps.cSources t with
    | nil => simp [hsources] at h
    | cons source rest =>
      simp only [hsources, Bool.false_eq_true, if_false] at h
      obtain ⟨c, hc, h⟩ := bind_eq_ok.mp h
      obtain ⟨files, compiled, -, -, rfl⟩ := compileSources_eq_ok hc
      refine ⟨.ofLines [], _, by simp, hc, ?_⟩
      rw [Traced.ofLines_append, List.nil_append]
      exact (Except.ok.inj h).symm

/-- A line stands in a file of the tree, at an origin. -/
def WrittenAt (t : Tree) (o : Origin) (line : String) : Prop :=
  ∃ text, fileText? t o.file = some text ∧
    ∃ n : Nat, o.line = n + 1 ∧ (lines text)[n]? = some line

theorem writtenAt_of_expands (ht : t.Grounded) {text : String} (hread : readIncluded t p = .ok text)
    {ls : List TracedLine} (h : (Piece.ofFile p text).Expands t ls) :
    ∀ l ∈ ls, WrittenAt t l.2 l.1 := by
  intro l hl
  obtain ⟨w, hw, k, horigin, hk⟩ := h.copied l hl
  have hfile : readIncluded t w.file = .ok w.text := by
    cases hw with
    | refl => exact hread
    | tail _ hw =>
      obtain ⟨-, -, q, text', -, hread', rfl⟩ := hw
      exact hread'
  refine ⟨w.text, ?_, k, by rw [horigin], hk⟩
  rw [horigin]
  exact fileText?_of_readText ht hfile

/-- A line of a C file that is compiled is not blank. -/
theorem sourceLine_written {text : String} {line : C.SourceLine} (h : line ∈ C.sourceLines text) :
    ∃ n, line.number = n + 1 ∧ (lines text)[n]? = some line.source ∧
      trim (C.stripComment line.source.toList) ≠ [] := by
  obtain ⟨⟨source, n⟩, hmem, hline⟩ := List.mem_filterMap.mp h
  simp only [C.sourceLine?, Option.ite_none_left_eq_some] at hline
  obtain ⟨hblank, hline⟩ := hline
  obtain rfl := Option.some.inj hline
  refine ⟨n, rfl, List.mem_zipIdx_iff_getElem?.mp hmem, ?_⟩
  intro hnil
  simp [hnil] at hblank

/-- An origin is a line of one of some C files that is not blank without its comment. -/
def WrittenInC (t : Tree) (sources : List Path) (o : Origin) : Prop :=
  (∃ p ∈ sources, o.file = p.resolved t.current) ∧
    ∃ source, WrittenAt t o source ∧ trim (C.stripComment source.toList) ≠ []

theorem writtenInC_of_compileSources (ht : t.Grounded) {sources : List Path}
    {files : List C.SourceFile} (hfiles : sources.mapM (readCSource t ps) = .ok files)
    {compiled : C.Compiled} (hcompiled : C.compile t.current { constants } files = .ok compiled) :
    ∀ l ∈ compiled.lines, WrittenInC t sources l.2 := by
  intro l hl
  obtain ⟨f, hf, line, hline, horigin⟩ := C.compile_attributed hcompiled l hl
  obtain ⟨hlength, hread⟩ := mapM_eq_ok hfiles
  obtain ⟨i, hi⟩ := List.getElem?_of_mem hf
  have hlt : i < sources.length := hlength ▸ (List.getElem?_eq_some_iff.mp hi).1
  obtain ⟨f', hf', hi'⟩ := hread i sources[i] (List.getElem?_eq_getElem hlt)
  obtain rfl : f = f' := Option.some.inj (hi.symm.trans hi')
  obtain ⟨text, htext, hf'⟩ := bind_eq_ok.mp hf'
  obtain rfl := Except.ok.inj hf'
  obtain ⟨n, hnumber, hsource, hblank⟩ := sourceLine_written hline
  refine ⟨⟨sources[i], List.getElem_mem hlt, by rw [horigin]⟩, line.source, ⟨text, ?_, n, ?_, hsource⟩,
    hblank⟩
  · rw [horigin]
    exact fileText?_of_readText ht htext
  · rw [horigin, hnumber]
    simp

theorem unbroken_of_compile {current : List String} {options : C.Options}
    {files : List C.SourceFile} {compiled : C.Compiled}
    (h : C.compile current options files = .ok compiled) :
    ∀ l ∈ compiled.lines, ∀ c ∈ l.1.text.toList, isBreak c = false := by
  obtain ⟨functions, hfunctions, -, hlines⟩ := C.compile_eq_code h
  have hnamed := C.ofFunctions_named (C.readFunctions_named hfunctions)
  rw [← hlines] at hnamed
  intro l hl
  exact C.CodeLine.text_unbroken (hnamed l.1 (List.mem_map_of_mem hl))

theorem WrittenAt.isBreak_eq_false {o : Origin} {line : String} (h : WrittenAt t o line) {c : Char}
    (hc : c ∈ line.toList) : isBreak c = false := by
  obtain ⟨text, -, n, -, hn⟩ := h
  exact isBreak_of_mem_lines (List.mem_of_getElem? hn) hc

theorem assemblyPart_eq_ok (ht : t.Grounded) (h : assemblyPart t ps = .ok unit) :
    ∃ xs, unit = .ofLines xs ∧ ∀ l ∈ xs, WrittenAt t l.2 l.1 := by
  unfold assemblyPart at h
  split at h
  · obtain ⟨text, ls, hread, hexpands, rfl⟩ := expandFile_eq_ok h
    exact ⟨ls, rfl, writtenAt_of_expands ht hread hexpands⟩
  · exact ⟨[], (Except.ok.inj h).symm, by simp⟩

theorem cPart_eq_ok (ht : t.Grounded) (h : cPart t ps constants = .ok unit) :
    ∃ ys, unit = .ofLines ys ∧ ∀ l ∈ ys, WrittenInC t (ps.cSources t) l.2 ∧
      ∀ c ∈ l.1.toList, isBreak c = false := by
  unfold cPart at h
  split at h
  · exact ⟨[], (Except.ok.inj h).symm, by simp⟩
  · obtain ⟨files, compiled, hfiles, hcompiled, rfl⟩ := compileSources_eq_ok h
    refine ⟨_, rfl, ?_⟩
    intro l hl
    obtain ⟨line, hline, rfl⟩ := List.mem_map.mp hl
    exact ⟨writtenInC_of_compileSources ht hfiles hcompiled line hline,
      unbroken_of_compile hcompiled line hline⟩

/-- A line of the merged source, by the part that it is in. -/
theorem origin_of_merged (ht : t.Grounded) {assembly c : Traced}
    (hassembly : assemblyPart t ps = .ok assembly) (hc : cPart t ps constants = .ok c) {k : Nat}
    {line : String} {o : Origin} (hline : (assembly.merge c).lines[k]? = some line)
    (ho : (assembly.merge c).origins[k]? = some o) :
    (k < assembly.lines.length → WrittenAt t o line) ∧
      (assembly.lines.length ≤ k → WrittenInC t (ps.cSources t) o) := by
  obtain ⟨xs, rfl, hxs⟩ := assemblyPart_eq_ok ht hassembly
  obtain ⟨ys, rfl, hys⟩ := cPart_eq_ok ht hc
  -- No line holds a break, so that the text splits into the lines that it was made of.
  have hfirst : (Traced.ofLines xs).lines = xs.map Prod.fst :=
    Traced.lines_ofLines fun l hl _ hc => (hxs l hl).isBreak_eq_false hc
  have hboth : (Traced.ofLines (xs ++ ys)).lines = (xs ++ ys).map Prod.fst := by
    apply Traced.lines_ofLines
    refine List.forall_mem_append.mpr ⟨?_, fun l hl => (hys l hl).2⟩
    exact fun l hl _ hc => (hxs l hl).isBreak_eq_false hc
  rw [Traced.ofLines_append, hboth, List.getElem?_map] at hline
  rw [Traced.ofLines_append, Traced.origins_ofLines, List.getElem?_map] at ho
  obtain ⟨l, hl, rfl⟩ := Option.map_eq_some_iff.mp hline
  rw [hl] at ho
  obtain rfl : l.2 = o := by simpa using ho
  rw [hfirst, List.length_map]
  constructor
  · intro hk
    rw [List.getElem?_append_left hk] at hl
    exact hxs l (List.mem_of_getElem? hl)
  · intro hk
    rw [List.getElem?_append_right hk] at hl
    exact (hys l (List.mem_of_getElem? hl)).1

theorem writeHeaders_current {directory : Path} {constants sprites : List Machine.Constant}
    {t' : Tree} {r : Path × Path} (h : writeHeaders directory constants sprites t = (.ok r, t')) :
    t'.current = t.current := by
  obtain ⟨_, t₁, hdirectory, h⟩ := Disk.bind_eq_ok.mp h
  obtain ⟨_, -, h⟩ := Disk.look_bind_eq_ok.mp h
  obtain ⟨_, t₂, hassembly, h⟩ := Disk.bind_eq_ok.mp h
  obtain ⟨_, -, h⟩ := Disk.look_bind_eq_ok.mp h
  obtain ⟨_, t₃, hc, h⟩ := Disk.bind_eq_ok.mp h
  obtain rfl : t₃ = t' := congrArg Prod.snd h
  obtain ⟨-, hdirectory⟩ := Disk.ensureDirectories_eq_ok.mp hdirectory
  obtain ⟨-, hassembly⟩ := Disk.writeText_eq_ok.mp hassembly
  obtain ⟨-, hc⟩ := Disk.writeText_eq_ok.mp hc
  calc t₃.current = t₂.current := (Tree.keepsFiles_of_write hc).current
    _ = t₁.current := (Tree.keepsFiles_of_write hassembly).current
    _ = t.current := (Tree.keepsFiles_of_ensureDirectories hdirectory).current

theorem assembleMerged_eq_ok {root : Path} {origin : Int} {image : Image}
    (h : assembleMerged t root origin unit = .ok image) :
    assembleSource origin unit.text = .ok image := by
  unfold assembleMerged at h
  split at h
  · obtain ⟨d, -, h⟩ := bind_eq_ok.mp h
    simp at h
  · exact h

/-- A build that succeeds, stage by stage. Only the headers are written, before the sources are
read. -/
theorem assembleProject_eq_ok {root : Path} {config : Option Machine.Config} {t' : Tree}
    {a : Artifacts} (h : assembleProject root config t = (.ok a, t')) :
    t'.current = t.current ∧ ∃ constants ss, collect t' (.ofRoot t root) constants = .ok a.unit ∧
      readSource mergedName a.unit.text = .ok ss ∧ assemble a.loadAddress [] ss = .ok a.image ∧
      originMap a.image.lineMap a.unit.origins = .ok a.origins := by
  obtain ⟨ps, hps, h⟩ := Disk.look_bind_eq_ok.mp h
  obtain ⟨rfl, -⟩ := Paths.find_eq_ok.mp hps
  -- A configuration that is given and one that is read go on in the same way.
  have hlayout : ∃ config : Machine.Config,
      (Disk.look (fun _ => failWith .machine config.layout) >>= fun layout =>
        writeHeaders (Paths.ofRoot t root).headers layout.system layout.sprites >>= fun _ =>
        Disk.look (fun t' => collect t' (Paths.ofRoot t root) layout.constants) >>= fun unit =>
        Disk.look (fun t' => assembleMerged t' root layout.memory.ram unit) >>= fun image =>
        Disk.look (fun _ => originMap image.lineMap unit.origins) >>= fun origins =>
        pure (⟨unit, image, layout.memory.ram.toNat, origins⟩ : Artifacts)) t = (.ok a, t') := by
    cases config with
    | some config =>
      obtain ⟨_, _, hconfig, h⟩ := Disk.bind_eq_ok.mp h
      cases hconfig
      exact ⟨config, h⟩
    | none =>
      obtain ⟨config, -, h⟩ := Disk.look_bind_eq_ok.mp h
      exact ⟨config, h⟩
  obtain ⟨config, h⟩ := hlayout
  obtain ⟨layout, -, h⟩ := Disk.look_bind_eq_ok.mp h
  obtain ⟨_, t₁, hheaders, h⟩ := Disk.bind_eq_ok.mp h
  obtain ⟨unit, hunit, h⟩ := Disk.look_bind_eq_ok.mp h
  obtain ⟨image, himage, h⟩ := Disk.look_bind_eq_ok.mp h
  obtain ⟨origins, horigins, h⟩ := Disk.look_bind_eq_ok.mp h
  cases h
  obtain ⟨-, -, ss, hss, hassembled⟩ := assembleSource_eq_ok.mp (assembleMerged_eq_ok himage)
  exact ⟨writeHeaders_current hheaders, _, ss, hunit, hss, hassembled, horigins⟩

theorem originMap_eq_ok {lineMap : List Int} {origins out : List Origin}
    (h : originMap lineMap origins = .ok out) :
    out.length = lineMap.length ∧ ∀ (i k : Nat), lineMap[i]? = some ((k : Int) + 1) →
      ∃ o, origins[k]? = some o ∧ out[i]? = some o := by
  obtain ⟨hlength, hall⟩ := mapM_eq_ok h
  refine ⟨hlength, ?_⟩
  intro i k hi
  obtain ⟨o, ho, hout⟩ := hall i _ hi
  have hindex : atIndex? origins ((k : Int) + 1 - 1) = origins[k]? := by simp [atIndex?]
  rw [hindex] at ho
  split at ho
  · rename_i found hfound
    exact ⟨o, Except.ok.inj ho ▸ hfound, hout⟩
  · simp at ho

/-- Every byte of a project is traced back. Its line in the merged source, read alone, holds the
instruction that it comes from, and its origin is that of this line. A line of the expanded assembly
stands in its file at its origin; any other belongs to a line of a C file that is not blank without
its comment. -/
theorem assembleProject_traces {t t' : Tree} (ht : t.Grounded) {root : Path}
    {config : Option Machine.Config} {a : Artifacts}
    (h : assembleProject root config t = (.ok a, t')) :
    a.image.lineMap.length = a.program.length ∧ a.origins.length = a.program.length ∧
    ∃ constants assembly c ss, assemblyPart t' (.ofRoot t root) = .ok assembly ∧
      cPart t' (.ofRoot t root) constants = .ok c ∧ a.unit = assembly.merge c ∧
      readSource mergedName a.unit.text = .ok ss ∧ assemble a.loadAddress [] ss = .ok a.image ∧
      ∀ i < a.program.length, ∃ (k : Nat) (line : String) (o : Origin),
        a.image.lineMap[i]? = some ((k : Int) + 1) ∧ a.unit.lines[k]? = some line ∧
        a.unit.origins[k]? = some o ∧ a.origins[i]? = some o ∧
        (∃ own s m operand, readLine line { file := mergedName, line := k + 1 } = .ok own ∧
          s ∈ own ∧ s.content = .instruction m operand ∧ s.Emits a.loadAddress ss a.image i) ∧
        (k < assembly.lines.length → WrittenAt t' o line) ∧
        (assembly.lines.length ≤ k → WrittenInC t' ((Paths.ofRoot t root).cSources t') o) := by
  obtain ⟨hcurrent, constants, ss, hcollect, hss, himage, horigins⟩ := assembleProject_eq_ok h
  obtain ⟨assembly, c, hassembly, hc, hunit⟩ := collect_eq_ok hcollect
  have ht' : t'.Grounded := by rw [Tree.Grounded, hcurrent]; exact ht
  obtain ⟨hlength, htraces⟩ := lineMap_traces hss himage
  obtain ⟨hcount, hfound⟩ := originMap_eq_ok horigins
  refine ⟨hlength, hcount.trans hlength, constants, assembly, c, ss, hassembly, hc, hunit, hss,
    himage, ?_⟩
  intro i hi
  obtain ⟨k, line, own, s, m, operand, hk, hline, hown, hs, hcontent, hemits⟩ := htraces i hi
  obtain ⟨o, ho, hout⟩ := hfound i k hk
  obtain ⟨hwritten, hcompiled⟩ :=
    origin_of_merged ht' hassembly hc (hunit ▸ hline) (hunit ▸ ho)
  exact ⟨k, line, o, hk, hline, ho, hout, ⟨own, s, m, operand, hown, hs, hcontent, hemits⟩,
    hwritten, hcompiled⟩

def smallProject : Tree where
  entries := [(["w"], .directory), (["w", "src"], .directory),
    (["w", "src", "main.asm"], .file (encodeUtf8 "Start: NOP\n".toList)),
    (["w", "src", "main.c"], .file (encodeUtf8 "void Init() \x7b\n\x7d\n".toList))]
  current := ["w"]

theorem smallProject_traced : ∃ a t', assembleProject (Path.ofText ".") (some {}) smallProject =
    (.ok a, t') ∧ a.program.length = 2 ∧ a.origins.length = 2 ∧
      ∃ (k : Nat) (line : String) (o : Origin), a.image.lineMap[1]? = some ((k : Int) + 1) ∧
        a.unit.lines[k]? = some line ∧ a.origins[1]? = some o := by
  have hbuild : ((assembleProject (Path.ofText ".") (some {}) smallProject).1.toOption.map
      fun a => a.program.length) = some 2 := by decide +kernel
  obtain ⟨a, t', hrun, hsize⟩ := Disk.exists_eq_ok hbuild
  obtain ⟨-, horigins, constants, assembly, c, ss, -, -, -, -, -, htraces⟩ :=
    assembleProject_traces (by decide : smallProject.Grounded) hrun
  obtain ⟨k, line, o, hk, hline, -, ho, -⟩ := htraces 1 (by omega)
  exact ⟨a, t', hrun, hsize, horigins.trans hsize, k, line, o, hk, hline, ho⟩

end Project

end Toolchain6502
