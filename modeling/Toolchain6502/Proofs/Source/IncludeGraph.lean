import Mathlib.Logic.Relation
import Mathlib.Data.List.Chain
import Toolchain6502.Proofs.Files.Places
import Toolchain6502.Proofs.Text.WrittenText
import Toolchain6502.Source.Include

namespace Toolchain6502.Source

open Files Text Relation

/-- A text, the path that names it, and the directory that its includes are read from. -/
structure Piece where
  base : Path
  file : Path
  text : String

variable {u : Piece} {line text : String} {t : Tree} {rest : List String} {ls : List TracedLine}
  {p : Path}

namespace Piece

def ofFile (p : Path) (text : String) : Piece := ⟨p.parent, p, text⟩

def canonical (t : Tree) (u : Piece) : Path := u.file.resolved t.current

def directives (u : Piece) : List String := (lines u.text).filter fun line => isInclude line.toList

/-- The file that a directive names, if it is well formed. -/
def target? (u : Piece) (line : String) : Option Path :=
  (includeTarget? line.toList).map fun name => u.base.join (Path.ofText (String.ofList name))

theorem mem_directives :
    line ∈ u.directives ↔ line ∈ lines u.text ∧ isInclude line.toList = true := by
  simp [directives]

end Piece

def Includes (t : Tree) (u w : Piece) : Prop :=
  ∃ line ∈ u.directives, ∃ p text,
    u.target? line = some p ∧ readIncluded t p = .ok text ∧ w = .ofFile p text

/-- A text reaches itself and what is included from it. -/
abbrev Reaches (t : Tree) : Piece → Piece → Prop := ReflTransGen (Includes t)

/-- A text that can be expanded below the visited files. -/
structure Expandable (t : Tree) (visited : List Path) (u : Piece) : Prop where
  /-- Every directive that is reached is well formed and names a file. -/
  named : ∀ w, Reaches t u w → ∀ line ∈ w.directives, ∃ p,
    w.target? line = some p ∧ t.isFile p = true
  /-- No chain of includes meets a visited file or one of its own files again. -/
  fresh : ∀ us, List.IsChain (Includes t) (u :: us) →
    ((u :: us).map (Piece.canonical t)).Nodup ∧ ∀ w ∈ u :: us, w.canonical t ∉ visited

/-- The lines of a text from a number on, each directive replaced by the expansion of the file
that it names, and every other line with its own file and number. -/
inductive ExpandsFrom (t : Tree) : Piece → Nat → List String → List TracedLine → Prop where
  | nil (u : Piece) (number : Nat) : ExpandsFrom t u number [] []
  | copy {u : Piece} {number : Nat} {line : String} {rest : List String} {ls : List TracedLine}
      (hline : isInclude line.toList = false) (hrest : ExpandsFrom t u (number + 1) rest ls) :
      ExpandsFrom t u number (line :: rest) ((line, ⟨u.canonical t, number⟩) :: ls)
  | directive {u : Piece} {number : Nat} {line : String} {rest : List String} {p : Path}
      {text : String} {inner ls : List TracedLine} (hline : isInclude line.toList = true)
      (htarget : u.target? line = some p) (hread : readIncluded t p = .ok text)
      (hinner : ExpandsFrom t (.ofFile p text) 1 (lines text) inner)
      (hrest : ExpandsFrom t u (number + 1) rest ls) :
      ExpandsFrom t u number (line :: rest) (inner ++ ls)

def Piece.Expands (t : Tree) (u : Piece) (ls : List TracedLine) : Prop :=
  ExpandsFrom t u 1 (lines u.text) ls

/-- A merged line stands in a text, at the place that its origin tells. -/
def Piece.Copied (t : Tree) (u : Piece) (l : TracedLine) : Prop :=
  ∃ k : Nat, l.2 = ⟨u.canonical t, k + 1⟩ ∧ (lines u.text)[k]? = some l.1

theorem ExpandsFrom.isInclude_eq_false {number : Nat} (h : ExpandsFrom t u number rest ls) :
    ∀ l ∈ ls, isInclude l.1.toList = false := by
  induction h with
  | nil => simp
  | copy hline hrest ih => exact List.forall_mem_cons.mpr ⟨hline, ih⟩
  | directive hline htarget hread hinner hrest ihinner ihrest =>
    exact List.forall_mem_append.mpr ⟨ihinner, ihrest⟩

theorem ExpandsFrom.mem_of_own {number : Nat} (h : ExpandsFrom t u number rest ls)
    (hmem : line ∈ rest) (hown : isInclude line.toList = false) : line ∈ ls.map Prod.fst := by
  induction h with
  | nil => simp at hmem
  | copy hline hrest ih =>
    rcases List.mem_cons.mp hmem with rfl | hmem
    · exact List.mem_cons_self
    · exact List.mem_cons_of_mem _ (ih hmem)
  | directive hline htarget hread hinner hrest ihinner ihrest =>
    rw [List.map_append]
    rcases List.mem_cons.mp hmem with rfl | hmem
    · simp [hline] at hown
    · exact List.mem_append_right _ (ihrest hmem)

/-- Where a file is included, its expansion stands among the lines. -/
theorem ExpandsFrom.included {number : Nat} (h : ExpandsFrom t u number rest ls)
    (hmem : line ∈ rest) (hinclude : isInclude line.toList = true) (hp : u.target? line = some p)
    (htext : readIncluded t p = .ok text) :
    ∃ inner, (Piece.ofFile p text).Expands t inner ∧ inner ⊆ ls := by
  induction h with
  | nil => simp at hmem
  | copy hline hrest ih =>
    rcases List.mem_cons.mp hmem with rfl | hmem
    · simp [hline] at hinclude
    · obtain ⟨inner, hinner, hsubset⟩ := ih hmem hp
      exact ⟨inner, hinner, List.subset_cons_of_subset _ hsubset⟩
  | directive hline htarget hread hinner hrest ihinner ihrest =>
    rcases List.mem_cons.mp hmem with rfl | hmem
    · obtain rfl := Option.some.inj (htarget.symm.trans hp)
      obtain rfl := Except.ok.inj (hread.symm.trans htext)
      exact ⟨_, hinner, List.subset_append_left _ _⟩
    · obtain ⟨inner, hinner, hsubset⟩ := ihrest hmem hp
      exact ⟨inner, hinner, List.subset_append_of_subset_right _ hsubset⟩

/-- Every line of a reached text that includes nothing is among the merged lines. -/
theorem Piece.Expands.mem_of_reaches {w : Piece} (h : u.Expands t ls) (hw : Reaches t u w)
    (hmem : line ∈ lines w.text) (hown : isInclude line.toList = false) :
    line ∈ ls.map Prod.fst := by
  induction hw using ReflTransGen.head_induction_on generalizing ls with
  | refl => exact ExpandsFrom.mem_of_own h hmem hown
  | head hincludes _ ih =>
    obtain ⟨directive, hdirective, p, text, hp, htext, rfl⟩ := hincludes
    obtain ⟨hdirective, hinclude⟩ := Piece.mem_directives.mp hdirective
    obtain ⟨inner, hinner, hsubset⟩ := ExpandsFrom.included h hdirective hinclude hp htext
    exact List.map_subset _ hsubset (ih hinner)

theorem getElem?_of_cons_eq_drop {xs rest : List α} {x : α} {k : Nat} (h : x :: rest = xs.drop k) :
    xs[k]? = some x ∧ rest = xs.drop (k + 1) := by
  constructor
  · rw [← List.head?_drop, ← h, List.head?_cons]
  · rw [← List.tail_drop, ← h, List.tail_cons]

/-- Every merged line is copied from a text that is reached. -/
theorem ExpandsFrom.copied {k : Nat} (h : ExpandsFrom t u (k + 1) rest ls)
    (hrest : rest = (lines u.text).drop k) : ∀ l ∈ ls, ∃ w, Reaches t u w ∧ w.Copied t l := by
  generalize hn : k + 1 = n at h
  induction h generalizing k with
  | nil => simp
  | @copy u n line rest ls hline hcopied ih =>
    obtain ⟨hhead, htail⟩ := getElem?_of_cons_eq_drop hrest
    refine List.forall_mem_cons.mpr ⟨⟨u, .refl, k, ?_, hhead⟩, ih htail (by omega)⟩
    simp [← hn]
  | @directive u n line rest p text inner ls hline htarget hread hinner hcopied ihinner ihrest =>
    obtain ⟨hhead, htail⟩ := getElem?_of_cons_eq_drop hrest
    have hincludes : Includes t u (.ofFile p text) :=
      ⟨line, Piece.mem_directives.mpr ⟨List.mem_of_getElem? hhead, hline⟩, p, text, htarget, hread, rfl⟩
    refine List.forall_mem_append.mpr ⟨?_, ihrest htail (by omega)⟩
    intro l hl
    obtain ⟨w, hw, hcopy⟩ := ihinner (k := 0) rfl rfl l hl
    exact ⟨w, .head hincludes hw, hcopy⟩

theorem Piece.Copied.isBreak_eq_false {l : TracedLine} (h : u.Copied t l) {c : Char}
    (hc : c ∈ l.1.toList) : isBreak c = false := by
  obtain ⟨k, -, hk⟩ := h
  exact isBreak_of_mem_lines (List.mem_of_getElem? hk) hc

theorem Expandable.canonical_not_mem {visited : List Path} (h : Expandable t visited u) :
    u.canonical t ∉ visited :=
  (h.fresh [] (List.isChain_singleton u)).2 u List.mem_cons_self

/-- What an expandable text includes is expandable while the text is visited. -/
theorem Expandable.included {visited : List Path} {w : Piece} (h : Expandable t visited u)
    (hw : Includes t u w) : Expandable t (u.canonical t :: visited) w := by
  constructor
  · exact fun v hv => h.named v (.head hw hv)
  · intro us hus
    obtain ⟨hnodup, hvisited⟩ := h.fresh (w :: us) (List.isChain_cons_cons.mpr ⟨hw, hus⟩)
    rw [List.map_cons, List.nodup_cons] at hnodup
    refine ⟨hnodup.2, ?_⟩
    intro v hv hmem
    rcases List.mem_cons.mp hmem with heq | hmem
    · exact hnodup.1 (heq ▸ List.mem_map_of_mem hv)
    · exact hvisited v (List.mem_cons_of_mem u hv) hmem

/-- A text is expandable if its directives name files, and these are expandable while the text is
visited. -/
theorem Expandable.of_included {visited : List Path} (hfresh : u.canonical t ∉ visited)
    (hnamed : ∀ line ∈ u.directives, ∃ p, u.target? line = some p ∧ t.isFile p = true)
    (hincluded : ∀ w, Includes t u w → Expandable t (u.canonical t :: visited) w) :
    Expandable t visited u := by
  constructor
  · intro w hw
    rcases hw.cases_head with rfl | ⟨v, hv, hw⟩
    · exact hnamed
    · exact (hincluded v hv).named w hw
  · intro us hus
    cases us with
    | nil => simpa using hfresh
    | cons w us =>
      obtain ⟨hw, hus⟩ := List.isChain_cons_cons.mp hus
      obtain ⟨hnodup, hvisited⟩ := (hincluded w hw).fresh us hus
      constructor
      · rw [List.map_cons, List.nodup_cons]
        refine ⟨?_, hnodup⟩
        intro hmem
        obtain ⟨v, hv, heq⟩ := List.mem_map.mp hmem
        exact hvisited v hv (heq ▸ List.mem_cons_self)
      · refine List.forall_mem_cons.mpr ⟨hfresh, ?_⟩
        intro v hv hmem
        exact hvisited v hv (List.mem_cons_of_mem _ hmem)

theorem failWith_eq_ok {f : ε → Failure} {x : Except ε α} {a : α} :
    failWith f x = .ok a ↔ x = .ok a := by
  cases x <;> simp [failWith]

def fileText? (t : Tree) (p : Path) : Option String :=
  match t.node? p.parts with
  | some (.file bytes) =>
    (decodeUtf8 bytes).toOption.map fun chars => String.ofList (unifyBreaks chars)
  | _ => none

theorem readText_eq_ok {onFault : FileFault → Failure} :
    readText t onFault p = .ok text ↔ p.hasNull = false ∧ ∃ bytes chars,
      t.read p = .ok bytes ∧ decodeUtf8 bytes = .ok chars ∧
        text = String.ofList (unifyBreaks chars) := by
  unfold readText readBytes
  cases hnull : p.hasNull with
  | true => simp
  | false => simp [bind_eq_ok, failWith_eq_ok, @eq_comm _ text]

theorem fileText?_of_readText (ht : t.Grounded) {onFault : FileFault → Failure}
    (h : readText t onFault p = .ok text) : fileText? t (p.resolved t.current) = some text := by
  obtain ⟨-, bytes, chars, hread, hchars, rfl⟩ := readText_eq_ok.mp h
  simp [fileText?, Tree.stat_eq_ok ht (Tree.read_eq_ok.mp hread), hchars, Except.toOption]

def knownPaths (t : Tree) : List Path := t.entries.map fun e => ⟨.root, e.1⟩

theorem resolved_mem_knownPaths (ht : t.Grounded) (h : readIncluded t p = .ok text) :
    p.resolved t.current ∈ knownPaths t := by
  obtain ⟨-, bytes, chars, hread, -⟩ := readText_eq_ok.mp h
  have hnode := Tree.stat_eq_ok ht (Tree.read_eq_ok.mp hread)
  exact List.mem_map.mpr ⟨_, Tree.mem_entries_of_file hnode, rfl⟩

def isTextual : Node → Bool
  | .file bytes => (decodeUtf8 bytes).toOption.isSome
  | .directory => true

def Textual (t : Tree) : Prop := ∀ e ∈ t.entries, isTextual e.2 = true

instance (t : Tree) : Decidable (Textual t) :=
  inferInstanceAs (Decidable (∀ e ∈ t.entries, isTextual e.2 = true))

theorem Textual.decodes (h : Textual t) (ht : t.Grounded) {bytes : List UInt8}
    (hread : t.read p = .ok bytes) : ∃ chars, decodeUtf8 bytes = .ok chars :=
  exists_eq_ok_of_isSome
    (h _ (Tree.mem_entries_of_file (Tree.stat_eq_ok ht (Tree.read_eq_ok.mp hread))))

theorem isFile_of_readIncluded (h : readIncluded t p = .ok text) : t.isFile p = true := by
  obtain ⟨-, bytes, chars, hread, -⟩ := readText_eq_ok.mp h
  exact Tree.isFile_iff.mpr ⟨bytes, hread⟩

theorem exists_readIncluded (ht : t.Grounded) (htext : Textual t) (hnull : p.hasNull = false)
    (h : t.isFile p = true) : ∃ text, readIncluded t p = .ok text := by
  obtain ⟨bytes, hread⟩ := Tree.isFile_iff.mp h
  obtain ⟨chars, hchars⟩ := htext.decodes ht hread
  exact ⟨_, readText_eq_ok.mpr ⟨hnull, bytes, chars, hread, hchars, rfl⟩⟩

end Toolchain6502.Source
