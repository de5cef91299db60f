import Toolchain6502.Proofs.Files.PathTexts
import Toolchain6502.Proofs.Project.ByteProvenance
import Toolchain6502.Proofs.Project.FailedBuild
import Toolchain6502.Proofs.Text.WrittenText

namespace Toolchain6502.Project

open Files Source Text

namespace Artifacts

theorem le_of_mem_changesFrom {address : Nat} {last : Option Origin} {os : List Origin} :
    ∀ c ∈ changesFrom address last os, address ≤ c.1 := by
  induction os generalizing address last with
  | nil => simp [changesFrom]
  | cons o os ih =>
    have hrest {last : Option Origin} : ∀ c ∈ changesFrom (address + 1) last os, address ≤ c.1 :=
      fun c hc => Nat.le_of_succ_le (ih c hc)
    rw [changesFrom]
    split
    · exact hrest
    · exact List.forall_mem_cons.mpr ⟨Nat.le_refl address, hrest⟩

theorem pairwise_changesFrom (address : Nat) (last : Option Origin) (os : List Origin) :
    (changesFrom address last os).Pairwise fun c d => c.1 < d.1 := by
  induction os generalizing address last with
  | nil => simp [changesFrom]
  | cons o os ih =>
    rw [changesFrom]
    split
    · exact ih _ _
    · exact List.pairwise_cons.mpr ⟨fun d hd => le_of_mem_changesFrom d hd, ih _ _⟩

/-- The first change is one from the origin before, and each other from the one before it. -/
theorem isChain_changesFrom (address : Nat) (last : Option Origin) (os : List Origin) :
    (∀ c ∈ (changesFrom address last os).head?, some c.2 ≠ last) ∧
      (changesFrom address last os).IsChain fun c d => c.2 ≠ d.2 := by
  induction os generalizing address last with
  | nil => simp [changesFrom]
  | cons o os ih =>
    rw [changesFrom]
    split
    · exact ih _ _
    · next hne =>
      obtain ⟨hfirst, hchain⟩ := ih (address + 1) (some o)
      refine ⟨by simpa using hne, List.isChain_cons.mpr ⟨fun d hd heq => ?_, hchain⟩⟩
      exact hfirst d hd (congrArg some heq.symm)

theorem mem_of_mem_changesFrom {address : Nat} {last : Option Origin} {os : List Origin} :
    ∀ c ∈ changesFrom address last os, c.2 ∈ os := by
  induction os generalizing address last with
  | nil => simp [changesFrom]
  | cons o os ih =>
    rw [changesFrom]
    split
    · exact fun c hc => List.mem_cons_of_mem o (ih c hc)
    · exact List.forall_mem_cons.mpr
        ⟨List.mem_cons_self, fun c hc => List.mem_cons_of_mem o (ih c hc)⟩

/-- The last change at or before an address tells its origin. Before all changes it is the origin
before. -/
theorem last_changesFrom (address : Nat) (last : Option Origin) (os : List Origin) {i : Nat}
    (hi : i < os.length) :
    (((changesFrom address last os).filter fun c => c.1 ≤ address + i).getLast?.map Prod.snd).or
      last = os[i]? := by
  induction os generalizing address last i with
  | nil => simp at hi
  | cons o os ih =>
    cases i with
    | zero =>
      have hlater {last : Option Origin} :
          (changesFrom (address + 1) last os).filter (fun c => c.1 ≤ address + 0) = [] := by
        refine List.filter_eq_nil_iff.mpr fun c hc => ?_
        have := le_of_mem_changesFrom c hc
        simp only [decide_eq_true_eq]
        omega
      rw [changesFrom]
      split
      · next hsame => rw [hlater, ← hsame]; rfl
      · rw [List.filter_cons_of_pos (by simp), hlater]
        rfl
    | succ i =>
      have hnext : address + (i + 1) = address + 1 + i := by omega
      have hrest {last : Option Origin} := ih (address + 1) last (Nat.lt_of_succ_lt_succ hi)
      rw [changesFrom, hnext, List.getElem?_cons_succ]
      split
      · exact hrest
      · rw [List.filter_cons_of_pos (by simp; omega), List.getLast?_cons, ← @hrest (some o)]
        cases (List.filter _ _).getLast? <;> rfl

end Artifacts

/-- An origin as it is printed, its file seen from a directory. -/
def shownOrigin (base : Path) (o : Origin) : String :=
  ((o.file.relativeTo? base).getD o.file).toText ++ ":" ++ toString o.line

def entryOf? (line : String) : Option (Nat × String) :=
  match line.toList with
  | '$' :: rest =>
    match rest.span isHexDigit with
    | (digits, ' ' :: ' ' :: shown) => some (positional 16 digits, String.ofList shown)
    | _ => none
  | _ => none

/-- The origin on the last printed line at or before an address. -/
def shownAt? (printed : List String) (address : Nat) : Option String :=
  ((printed.filterMap entryOf?).filter fun e => e.1 ≤ address).getLast?.map Prod.snd

theorem renderChange_eq (base : Path) (c : Nat × Origin) :
    Artifacts.renderChange base c = "$" ++ hex 4 c.1 ++ "  " ++ shownOrigin base c.2 := by
  rw [shownOrigin, ← String.append_assoc, ← String.append_assoc]
  rfl

theorem entryOf?_renderChange (base : Path) (c : Nat × Origin) :
    entryOf? (Artifacts.renderChange base c) = some (c.1, shownOrigin base c.2) := by
  have htext : (Artifacts.renderChange base c).toList =
      '$' :: ((hex 4 c.1).toList ++ ' ' :: ' ' :: (shownOrigin base c.2).toList) := by
    simp [renderChange_eq]
  have hspan : ((hex 4 c.1).toList ++ ' ' :: ' ' :: (shownOrigin base c.2).toList).span isHexDigit =
      ((hex 4 c.1).toList, ' ' :: ' ' :: (shownOrigin base c.2).toList) :=
    span_append (fun d hd => isHexDigit_of_mem_hex hd) (by simp [isHexDigit])
  simp only [entryOf?, htext, hspan, (hex_spells 4 c.1).1, String.ofList_toList]

theorem map_entryOf?_sourceMap (a : Artifacts) (current : List String) (base : Path) :
    (a.sourceMap current base).map entryOf? =
      ((Artifacts.changesFrom a.loadAddress none a.origins).map
        fun c => (c.1, shownOrigin ((base.resolve? current).getD base) c.2)).map some := by
  rw [Artifacts.sourceMap, List.map_map, List.map_map, List.map_inj_left]
  intro c _
  rw [Function.comp_apply, entryOf?_renderChange, Function.comp_apply]

/-- What a printed map tells for an address is the origin of the last change at or before it. -/
theorem shownAt?_sourceMap (a : Artifacts) (current : List String) (base : Path) (address : Nat) :
    shownAt? (a.sourceMap current base) address =
      (((Artifacts.changesFrom a.loadAddress none a.origins).filter
        fun c => c.1 ≤ address).getLast?.map Prod.snd).map
          (shownOrigin ((base.resolve? current).getD base)) := by
  have hentries : (a.sourceMap current base).filterMap entryOf? =
      (Artifacts.changesFrom a.loadAddress none a.origins).map
        fun c => (c.1, shownOrigin ((base.resolve? current).getD base) c.2) := by
    have hread := List.filterMap_map (f := entryOf?) (g := id) (l := a.sourceMap current base)
    rw [Function.id_comp, map_entryOf?_sourceMap] at hread
    rw [← hread]
    simp
  rw [shownAt?, hentries, List.filter_map, List.getLast?_map, Option.map_map, Option.map_map]
  rfl

structure Authored (o : Origin) : Prop where
  absolute : o.file.isAbsolute = true
  formed : o.file.Formed
  line : ∃ n : Nat, o.line = n + 1

/-- The number of a line stands behind the last colon. -/
theorem cutLast?_numbered (file : String) (n : Nat) :
    cutLast? ':' (file ++ ":" ++ toString ((n : Int) + 1)).toList =
      some (file.toList, Nat.toDigits 10 (n + 1)) := by
  have hdigits : toString ((n : Int) + 1) = String.ofList (Nat.toDigits 10 (n + 1)) :=
    Nat.toString_eq_ofList_toDigits
  have hcolon : ':' ∉ Nat.toDigits 10 (n + 1) := fun hmem =>
    absurd (isDigit_of_mem_decimalDigits (n + 1) ':' hmem) (by decide)
  rw [hdigits, ← cutLast?_append hcolon]
  simp

/-- Different lines are printed differently, seen from any directory. -/
theorem Authored.eq_of_shownOrigin {base : Path} {o o' : Origin} (ho : Authored o)
    (ho' : Authored o') (h : shownOrigin base o = shownOrigin base o') : o = o' := by
  obtain ⟨n, hn⟩ := ho.line
  obtain ⟨n', hn'⟩ := ho'.line
  have hparts := congrArg (fun s => cutLast? ':' s.toList) h
  simp only [shownOrigin, hn, hn', cutLast?_numbered, Option.some.injEq, Prod.mk.injEq] at hparts
  obtain ⟨hshown, hdigits⟩ := hparts
  have hfile : o.file = o'.file := ho.formed.eq_of_shown ho'.formed ho.absolute ho'.absolute
    (String.toList_inj.mp hshown)
  have hnumber : n + 1 = n' + 1 := by
    rw [← Nat.ofDigitChars_ten_toDigits (n := n + 1), hdigits, Nat.ofDigitChars_ten_toDigits]
  have hline : o.line = o'.line := by omega
  obtain ⟨file, line⟩ := o
  obtain ⟨file', line'⟩ := o'
  exact congrArg₂ Origin.mk hfile hline

theorem mem_of_originMap {lineMap : List Int} {origins out : List Origin}
    (h : originMap lineMap origins = .ok out) : out ⊆ origins := by
  intro o ho
  obtain ⟨line, -, hline⟩ := exists_of_mem_mapM h ho
  split at hline
  · next found hfound =>
    obtain rfl := Except.ok.inj hline
    unfold atIndex? at hfound
    split at hfound
    · exact List.mem_of_getElem? hfound
    · split at hfound
      · exact List.mem_of_getElem? hfound
      · simp at hfound
  · simp at hline

theorem absolute_of_assemblyPart {t : Tree} {ps : Paths} {unit : Traced}
    (h : assemblyPart t ps = .ok unit) : ∀ o ∈ unit.origins, o.file.isAbsolute = true := by
  unfold assemblyPart at h
  split at h
  · obtain ⟨text, ls, -, hexpands, rfl⟩ := expandFile_eq_ok h
    intro o ho
    obtain ⟨l, hl, rfl⟩ := List.mem_map.mp ho
    obtain ⟨w, -, k, horigin, -⟩ := hexpands.copied l hl
    rw [horigin]
    rfl
  · obtain rfl := Except.ok.inj h
    simp

/-- Every line of the merged source comes from a line of a file at an absolute path. -/
theorem collect_written {t : Tree} (ht : t.Grounded) {ps : Paths} {constants : NameTable Number}
    {unit : Traced} (h : collect t ps constants = .ok unit) :
    ∀ o ∈ unit.origins, o.file.isAbsolute = true ∧ ∃ line, WrittenAt t o line := by
  obtain ⟨assembly, c, hassembly, hc, rfl⟩ := collect_eq_ok h
  have habsolute := absolute_of_assemblyPart hassembly
  obtain ⟨xs, rfl, hxs⟩ := assemblyPart_eq_ok ht hassembly
  obtain ⟨ys, rfl, hys⟩ := cPart_eq_ok ht hc
  intro o ho
  rw [Traced.ofLines_append, Traced.origins_ofLines, List.map_append] at ho
  rcases List.mem_append.mp ho with ho | ho
  · obtain ⟨l, hl, rfl⟩ := List.mem_map.mp ho
    exact ⟨habsolute l.2 ho, l.1, hxs l hl⟩
  · obtain ⟨l, hl, rfl⟩ := List.mem_map.mp ho
    obtain ⟨⟨⟨p, -, hfile⟩, source, hsource, -⟩, -⟩ := hys l hl
    exact ⟨by rw [hfile]; rfl, source, hsource⟩

section
variable {root : Path} {config : Option Machine.Config} {t t' : Tree} {a : Artifacts}

/-- Files that a build adds are headers below its root. -/
theorem isComponent_of_file (ht : t.Named) (hroot : root.Formed)
    (h : assembleProject root config t = (.ok a, t')) {place : List String} {bytes : List UInt8}
    (hfile : t'.node? place = some (.file bytes)) : ∀ part ∈ place, isComponent part = true := by
  have hkeeps := assembleProject_keepsFiles root config t
  rw [h] at hkeeps
  by_cases hheader : ∃ p ∈ (Paths.ofRoot t root).headerFiles, t'.place p = .ok place
  · obtain ⟨p, hp, hplace⟩ := hheader
    have hformed : p.Formed := by
      have hsources : (Paths.ofRoot t root).sources.Formed := by
        simp only [Paths.ofRoot, Paths.under]
        split
        · exact hroot.child _
        · exact hroot.child _
      simp only [Paths.headerFiles, List.mem_cons, List.not_mem_nil, or_false] at hp
      rcases hp with rfl | rfl
      · exact (hsources.child _).child _
      · exact (hsources.child _).child _
    have hground : t'.Grounded := by
      rw [Tree.Grounded, hkeeps.current]
      exact ht.1
    rw [Tree.place_eq_ok hground hplace, hkeeps.current]
    exact hformed.resolved ht.2.1
  · have hsame : t'.file? place = t.file? place :=
      hkeeps.files place fun p hp hplace => hheader ⟨p, hp, hplace⟩
    have hold := Tree.file?_eq_some.mp (hsame.symm.trans (Tree.file?_eq_some.mpr hfile))
    exact ht.2.2 _ (Tree.mem_entries_of_file hold)

theorem authored_of_mem_origins (ht : t.Named) (hroot : root.Formed)
    (h : assembleProject root config t = (.ok a, t')) : ∀ o ∈ a.origins, Authored o := by
  intro o ho
  obtain ⟨hcurrent, constants, ss, hcollect, -, -, horigins⟩ := assembleProject_eq_ok h
  have hground : t'.Grounded := by
    rw [Tree.Grounded, hcurrent]
    exact ht.1
  obtain ⟨habsolute, line, text, htext, n, hn, -⟩ :=
    collect_written hground hcollect o (mem_of_originMap horigins ho)
  refine ⟨habsolute, ?_, n, hn⟩
  unfold fileText? at htext
  split at htext
  · next bytes hnode => exact isComponent_of_file ht hroot h hnode
  · simp at htext

theorem exists_assembleProject_eq_ok {output : Option Path}
    (h : buildProject root output config t = (.ok a, t')) :
    ∃ t₁, assembleProject root config t = (.ok a, t₁) := by
  obtain ⟨_, -, h⟩ := Disk.look_bind_eq_ok.mp h
  obtain ⟨a', t₁, hassembled, h⟩ := Disk.bind_eq_ok.mp h
  obtain ⟨_, t₂, -, h⟩ := Disk.bind_eq_ok.mp h
  obtain ⟨_, t₃, -, h⟩ := Disk.bind_eq_ok.mp h
  cases h
  exact ⟨t₁, hassembled⟩

/-- The printed map of a build loses nothing. The addresses on its lines increase from the load
address on, no two lines in sequence show the same origin, and the origin of every byte is on the
last line at or before it. Different origins are shown differently. -/
theorem sourceMap_lossless (ht : t.Named) (hroot : root.Formed)
    (h : assembleProject root config t = (.ok a, t') ∨
      ∃ output, buildProject root output config t = (.ok a, t'))
    (current : List String) (base : Path) :
    let printed := a.sourceMap current base
    let shown := shownOrigin ((base.resolve? current).getD base)
    (∃ entries : List (Nat × String), printed.map entryOf? = entries.map some ∧
      (entries.map Prod.fst).Pairwise (· < ·) ∧
      (a.program ≠ [] → (entries.map Prod.fst).head? = some a.loadAddress) ∧
      (entries.map Prod.snd).IsChain (· ≠ ·)) ∧
    (∀ i < a.program.length, ∃ o, a.origins[i]? = some o ∧
      shownAt? printed (a.loadAddress + i) = some (shown o)) ∧
    ∀ o ∈ a.origins, ∀ o' ∈ a.origins, shown o = shown o' → o = o' := by
  intro printed shown
  obtain ⟨t₁, h⟩ : ∃ t₁, assembleProject root config t = (.ok a, t₁) := by
    rcases h with h | ⟨output, h⟩
    · exact ⟨t', h⟩
    · exact exists_assembleProject_eq_ok h
  have hauthored := authored_of_mem_origins ht hroot h
  obtain ⟨-, -, ss, -, hss, himage, horigins⟩ := assembleProject_eq_ok h
  have hlength : a.origins.length = a.program.length :=
    (originMap_eq_ok horigins).1.trans (Assembly.lineMap_traces hss himage).1
  have hinj : ∀ o ∈ a.origins, ∀ o' ∈ a.origins, shown o = shown o' → o = o' :=
    fun o ho o' ho' heq => (hauthored o ho).eq_of_shownOrigin (hauthored o' ho') heq
  refine ⟨⟨(Artifacts.changesFrom a.loadAddress none a.origins).map fun c => (c.1, shown c.2),
    ?_, ?_, ?_, ?_⟩, ?_, hinj⟩
  · exact map_entryOf?_sourceMap a current base
  · rw [List.map_map, List.pairwise_map]
    exact Artifacts.pairwise_changesFrom _ _ _
  · intro hne
    cases hos : a.origins with
    | nil =>
      rw [hos] at hlength
      exact absurd (List.length_eq_zero_iff.mp hlength.symm) hne
    | cons o os => simp [Artifacts.changesFrom]
  · rw [List.map_map, List.isChain_map]
    refine (Artifacts.isChain_changesFrom _ _ _).2.imp_of_mem_imp fun c d hc hd hne heq => hne ?_
    exact hinj _ (Artifacts.mem_of_mem_changesFrom c hc) _ (Artifacts.mem_of_mem_changesFrom d hd)
      heq
  · intro i hi
    rw [← hlength] at hi
    have hlast := Artifacts.last_changesFrom a.loadAddress none a.origins hi
    rw [Option.or_none, List.getElem?_eq_getElem hi] at hlast
    exact ⟨a.origins[i], List.getElem?_eq_getElem hi, by rw [shownAt?_sourceMap, hlast]; rfl⟩

end

/-- Three instructions, of which the second is in a file beside the project. -/
def sharedProject : Tree where
  entries := [(["w"], .directory), (["w", "src"], .directory),
    (["w", "src", "main.asm"],
      .file (encodeUtf8 "Start: NOP\n.include \"../../lib.asm\"\nRTS\n".toList)),
    (["lib.asm"], .file (encodeUtf8 "LDA #1\n".toList))]
  current := ["w"]

/-- No line is printed for the third byte, which belongs to the second instruction. -/
theorem sharedProject_printed : sharedProject.Named ∧ (Path.ofText ".").Formed ∧ ∃ a t',
    assembleProject (Path.ofText ".") (some {}) sharedProject = (.ok a, t') ∧
      a.sourceMap ["w"] (Path.ofText ".") =
        ["$0200  src/main.asm:1", "$0201  /lib.asm:1", "$0203  src/main.asm:3"] ∧
      ∃ o, a.origins[2]? = some o ∧ shownAt? (a.sourceMap ["w"] (Path.ofText ".")) 0x202 =
        some (shownOrigin ⟨.root, ["w"]⟩ o) := by
  have hnamed : sharedProject.Named := by decide
  have hformed := Path.formed_ofText "."
  have hbuild : ((assembleProject (Path.ofText ".") (some {}) sharedProject).1.toOption.map
      fun a => (a.loadAddress, a.program.length, a.sourceMap ["w"] (Path.ofText "."))) =
      some (0x200, 4, ["$0200  src/main.asm:1", "$0201  /lib.asm:1", "$0203  src/main.asm:3"]) := by
    decide +kernel
  obtain ⟨a, t', hrun, hfacts⟩ := Disk.exists_eq_ok hbuild
  simp only [Prod.mk.injEq] at hfacts
  obtain ⟨haddress, hsize, hprinted⟩ := hfacts
  obtain ⟨-, hshown, -⟩ :=
    sourceMap_lossless hnamed hformed (.inl hrun) ["w"] (Path.ofText ".")
  obtain ⟨o, ho, hat⟩ := hshown 2 (by omega)
  rw [haddress] at hat
  exact ⟨hnamed, hformed, a, t', hrun, hprinted, o, ho, hat⟩

end Toolchain6502.Project
