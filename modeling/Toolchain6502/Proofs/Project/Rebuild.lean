import Toolchain6502.Proofs.Files.Settled
import Toolchain6502.Proofs.Project.ByteProvenance
import Toolchain6502.Proofs.Project.FailedBuild
import Toolchain6502.Proofs.Source.KeptSources

namespace Toolchain6502

open Files Source

variable {directory p : Path} {constants sprites : List Machine.Constant} {r : Path × Path}

namespace Project

variable {root : Path} {t t' t₁ : Tree} {a : Artifacts}

theorem writeHeaders_eq_ok :
    writeHeaders directory constants sprites t = (.ok r, t') ↔
      ∃ t₁ t₂ forAssembly forC, directory.hasNull = false ∧
        t.ensureDirectories directory = (.ok (), t₁) ∧
        Machine.assemblyHeader constants sprites = .ok forAssembly ∧
        (directory.child assemblyHeaderName).hasNull = false ∧
        t₁.write (directory.child assemblyHeaderName) (Text.encodeUtf8 forAssembly.toList) =
          (.ok (), t₂) ∧
        Machine.cHeader constants sprites = .ok forC ∧
        (directory.child cHeaderName).hasNull = false ∧
        t₂.write (directory.child cHeaderName) (Text.encodeUtf8 forC.toList) = (.ok (), t') ∧
        r = (directory.child assemblyHeaderName, directory.child cHeaderName) := by
  constructor
  · intro h
    obtain ⟨_, t₁, hdirectory, h⟩ := Disk.bind_eq_ok.mp h
    obtain ⟨forAssembly, hassembly, h⟩ := Disk.look_bind_eq_ok.mp h
    obtain ⟨_, t₂, hfirst, h⟩ := Disk.bind_eq_ok.mp h
    obtain ⟨forC, hc, h⟩ := Disk.look_bind_eq_ok.mp h
    obtain ⟨_, t₃, hsecond, h⟩ := Disk.bind_eq_ok.mp h
    cases h
    obtain ⟨hnull, hdirectory⟩ := Disk.ensureDirectories_eq_ok.mp hdirectory
    obtain ⟨hnull₁, hfirst⟩ := Disk.writeText_eq_ok.mp hfirst
    obtain ⟨hnull₂, hsecond⟩ := Disk.writeText_eq_ok.mp hsecond
    exact ⟨t₁, t₂, forAssembly, forC, hnull, hdirectory, failWith_eq_ok.mp hassembly, hnull₁, hfirst,
      failWith_eq_ok.mp hc, hnull₂, hsecond, rfl⟩
  · rintro ⟨t₁, t₂, forAssembly, forC, hnull, hdirectory, hassembly, hnull₁, hfirst, hc, hnull₂,
      hsecond, rfl⟩
    exact Disk.bind_eq_ok.mpr ⟨(), t₁, Disk.ensureDirectories_eq_ok.mpr ⟨hnull, hdirectory⟩,
      Disk.look_bind_eq_ok.mpr ⟨forAssembly, failWith_eq_ok.mpr hassembly,
      Disk.bind_eq_ok.mpr ⟨(), t₂, Disk.writeText_eq_ok.mpr ⟨hnull₁, hfirst⟩,
      Disk.look_bind_eq_ok.mpr ⟨forC, failWith_eq_ok.mpr hc,
      Disk.bind_eq_ok.mpr ⟨(), t', Disk.writeText_eq_ok.mpr ⟨hnull₂, hsecond⟩, rfl⟩⟩⟩⟩⟩

theorem assembleProject_eq_ok_iff :
    assembleProject root none t = (.ok a, t₁) ↔ Paths.find t root = .ok (.ofRoot t root) ∧
      ∃ config layout r, projectConfig t root = .ok config ∧ config.layout = .ok layout ∧
        writeHeaders (Paths.ofRoot t root).headers layout.system layout.sprites t = (.ok r, t₁) ∧
        collect t₁ (.ofRoot t root) layout.constants = .ok a.unit ∧
        assembleMerged t₁ root layout.memory.ram a.unit = .ok a.image ∧
        originMap a.image.lineMap a.unit.origins = .ok a.origins ∧
        a.loadAddress = layout.memory.ram.toNat := by
  constructor
  · intro h
    obtain ⟨ps, hps, h⟩ := Disk.look_bind_eq_ok.mp h
    obtain ⟨rfl, -⟩ := Paths.find_eq_ok.mp hps
    obtain ⟨config, hconfig, h⟩ := Disk.look_bind_eq_ok.mp h
    obtain ⟨layout, hlayout, h⟩ := Disk.look_bind_eq_ok.mp h
    obtain ⟨r, t₂, hheaders, h⟩ := Disk.bind_eq_ok.mp h
    obtain ⟨unit, hunit, h⟩ := Disk.look_bind_eq_ok.mp h
    obtain ⟨image, himage, h⟩ := Disk.look_bind_eq_ok.mp h
    obtain ⟨origins, horigins, h⟩ := Disk.look_bind_eq_ok.mp h
    cases h
    exact ⟨hps, config, layout, r, hconfig, failWith_eq_ok.mp hlayout, hheaders, hunit, himage,
      horigins, rfl⟩
  · rintro ⟨hps, config, layout, r, hconfig, hlayout, hheaders, hunit, himage, horigins, haddress⟩
    have ha : a = ⟨a.unit, a.image, layout.memory.ram.toNat, a.origins⟩ := by rw [← haddress]
    rw [ha]
    exact Disk.look_bind_eq_ok.mpr ⟨_, hps,
      Disk.look_bind_eq_ok.mpr ⟨config, hconfig,
      Disk.look_bind_eq_ok.mpr ⟨layout, failWith_eq_ok.mpr hlayout,
      Disk.bind_eq_ok.mpr ⟨r, t₁, hheaders,
      Disk.look_bind_eq_ok.mpr ⟨a.unit, hunit,
      Disk.look_bind_eq_ok.mpr ⟨a.image, himage,
      Disk.look_bind_eq_ok.mpr ⟨a.origins, horigins, rfl⟩⟩⟩⟩⟩⟩⟩

theorem buildProject_eq_ok_iff :
    buildProject root none none t = (.ok a, t') ↔
      ∃ t₁ t₂, assembleProject root none t = (.ok a, t₁) ∧
        (Paths.ofRoot t root).program.parent.hasNull = false ∧
        t₁.ensureDirectories (Paths.ofRoot t root).program.parent = (.ok (), t₂) ∧
        (Paths.ofRoot t root).program.hasNull = false ∧
        t₂.write (Paths.ofRoot t root).program a.program = (.ok (), t') := by
  constructor
  · intro h
    obtain ⟨ps, hps, h⟩ := Disk.look_bind_eq_ok.mp h
    obtain ⟨rfl, -⟩ := Paths.find_eq_ok.mp hps
    obtain ⟨a', t₁, hassembled, h⟩ := Disk.bind_eq_ok.mp h
    obtain ⟨_, t₂, hdirectory, h⟩ := Disk.bind_eq_ok.mp h
    obtain ⟨_, t₃, hwritten, h⟩ := Disk.bind_eq_ok.mp h
    cases h
    obtain ⟨hnull, hdirectory⟩ := Disk.ensureDirectories_eq_ok.mp hdirectory
    obtain ⟨hnull', hwritten⟩ := Disk.writeBytes_eq_ok.mp hwritten
    exact ⟨t₁, t₂, hassembled, hnull, hdirectory, hnull', hwritten⟩
  · rintro ⟨t₁, t₂, hassembled, hnull, hdirectory, hnull', hwritten⟩
    have hps := (assembleProject_eq_ok_iff.mp hassembled).1
    exact Disk.look_bind_eq_ok.mpr ⟨_, hps,
      Disk.bind_eq_ok.mpr ⟨a, t₁, hassembled,
      Disk.bind_eq_ok.mpr ⟨(), t₂, Disk.ensureDirectories_eq_ok.mpr ⟨hnull, hdirectory⟩,
      Disk.bind_eq_ok.mpr ⟨(), t', Disk.writeBytes_eq_ok.mpr ⟨hnull', hwritten⟩, rfl⟩⟩⟩⟩

/-- What a build makes after it has read the sources: a directory, and the program in it. -/
def builtNames : List String := ["build", "program.bin"]

theorem writeHeaders_hasNull (h : writeHeaders directory constants sprites t = (.ok r, t₁)) :
    directory.hasNull = false := by
  obtain ⟨_, _, _, _, hnull, -⟩ := writeHeaders_eq_ok.mp h
  exact hnull

theorem writeHeaders_isDirectory (h : writeHeaders directory constants sprites t = (.ok r, t₁)) :
    t₁.isDirectory directory = true := by
  obtain ⟨made, between, _, _, -, hdirectory, -, -, hfirst, -, -, hsecond, -⟩ :=
    writeHeaders_eq_ok.mp h
  have hmade := Tree.isDirectory_of_ensureDirectories hdirectory
  have hbetween := (Tree.keepsFiles_of_write hfirst).isDirectory hmade
  exact (Tree.keepsFiles_of_write hsecond).isDirectory hbetween

theorem writeHeaders_grows (h : writeHeaders directory constants sprites t = (.ok r, t₁))
    {changed : List String → Bool}
    (hdirectory : ∀ made, t.ensureDirectories directory = (.ok (), made) → t.Grows changed made)
    (hnames : ∀ place, Tree.endsIn [assemblyHeaderName, cHeaderName] place = true →
      changed place = true) : t.Grows changed t₁ := by
  obtain ⟨made, between, _, _, -, hmade, -, -, hfirst, -, -, hsecond, -⟩ := writeHeaders_eq_ok.mp h
  have hwrites : made.Grows (Tree.endsIn [assemblyHeaderName, cHeaderName]) t₁ :=
    ((Tree.grows_write_child (by decide) hfirst).weaken (by simp)).trans
      ((Tree.grows_write_child (by decide) hsecond).weaken (by simp))
  exact (hdirectory made hmade).trans (hwrites.mono hnames)

/-- Headers that are there are written again without a change. -/
theorem writeHeaders_again (h : writeHeaders directory constants sprites t = (.ok r, t₁))
    (hgrows : t₁.Grows (Tree.endsIn builtNames) t') :
    writeHeaders directory constants sprites t' = (.ok r, t') := by
  have hthere := hgrows.isDirectory (writeHeaders_isDirectory h)
  obtain ⟨made, between, forAssembly, forC, hnull, -, hassembly, hnull₁, hfirst, hc, hnull₂, hsecond,
    hr⟩ := writeHeaders_eq_ok.mp h
  have hsettled := (Tree.settled_write hfirst).grows_child (by decide)
    (Tree.grows_write_child (by decide) hsecond) (by decide)
  refine writeHeaders_eq_ok.mpr ⟨t', t', forAssembly, forC, hnull, ?_, hassembly, hnull₁, ?_, hc,
    hnull₂, ?_, hr⟩
  · exact Tree.ensureDirectories_of_isDirectory hthere
  · exact (hsettled.grows_child (by decide) hgrows (by decide)).write
  · exact ((Tree.settled_write hsecond).grows_child (by decide) hgrows (by decide)).write

section
variable {ps : Paths} {here : List String}

theorem name_of_isCSource (h : isCSource p = true) : p.name ∉ ["", ".."] ++ builtNames := by
  intro hname
  simp only [builtNames, List.cons_append, List.nil_append, List.mem_cons, List.not_mem_nil,
    or_false] at hname
  unfold isCSource Path.suffix at h
  rcases hname with hname | hname | hname | hname <;>
    (rw [hname] at h; exact absurd h (by decide))

def fileBelow? (p : Path) (here : List String) (e : List String × Node) : Option Path :=
  match e.2 with
  | .file _ =>
    if here.isPrefixOf e.1 && here.length < e.1.length then
      some { p with parts := p.parts ++ e.1.drop here.length }
    else none
  | .directory => none

theorem filesBelow_eq (h : t.place p = .ok here) :
    t.filesBelow p = t.entries.filterMap (fileBelow? p here) := by
  simp only [Tree.filesBelow, h]
  rfl

theorem name_of_fileBelow? {q : Path} {e : List String × Node} (h : fileBelow? p here e = some q) :
    e.1.getLast? = some q.name := by
  unfold fileBelow? at h
  split at h
  · split at h
    · next hbelow =>
      obtain rfl := Option.some.inj h
      simp only [Bool.and_eq_true, decide_eq_true_eq] at hbelow
      have hne : e.1.drop here.length ≠ [] := by
        simpa using hbelow.2
      have hlast : (e.1.drop here.length).getLast? = e.1.getLast? := by
        rw [List.getLast?_drop, if_neg (Nat.not_le.mpr hbelow.2)]
      obtain ⟨name, hname⟩ := Option.isSome_iff_exists.mp (List.getLast?_isSome.mpr hne)
      simp only [Path.name, List.getLast?_append_of_ne_nil _ hne, hname, Option.getD_some]
      rw [← hlast, hname]
    · simp at h
  · simp at h

theorem isCSource_fileBelow? {q : Path} {e : List String × Node}
    (hbuilt : Tree.endsIn builtNames e.1 = true) (hbelow : fileBelow? p here e = some q) :
    isCSource q = false := by
  have hname : q.name ∈ builtNames := by
    simpa [Tree.endsIn, name_of_fileBelow? hbelow] using hbuilt
  rw [Bool.eq_false_iff]
  exact fun hq => name_of_isCSource hq (List.mem_append_right _ hname)

theorem filter_fileBelow? (p : Path) (here : List String) (entries : List (List String × Node)) :
    ((entries.filter fun e => !Tree.endsIn builtNames e.1).filterMap (fileBelow? p here)).filter
      isCSource = (entries.filterMap (fileBelow? p here)).filter isCSource := by
  induction entries with
  | nil => rfl
  | cons e rest ih =>
    cases hbuilt : Tree.endsIn builtNames e.1 with
    | false => cases hbelow : fileBelow? p here e <;> simp [List.filter_cons, hbuilt, hbelow, ih]
    | true =>
      cases hbelow : fileBelow? p here e with
      | none => simp [hbuilt, hbelow, ih]
      | some q => simp [hbuilt, hbelow, isCSource_fileBelow? hbuilt hbelow, ih]

/-- The C sources are the same as long as nothing but the program is made. -/
theorem filter_filesBelow (hgrows : t₁.Grows (Tree.endsIn builtNames) t')
    (h : t₁.place p = .ok here) :
    (t'.filesBelow p).filter isCSource = (t₁.filesBelow p).filter isCSource := by
  rw [filesBelow_eq h, filesBelow_eq (hgrows.place h), ← filter_fileBelow?, hgrows.entries,
    filter_fileBelow?]

theorem cSources_again (hgrows : t₁.Grows (Tree.endsIn builtNames) t')
    (hsources : t₁.Leads ps.sources here) : ps.cSources t' = ps.cSources t₁ := by
  have hplace := hsources.place_eq
  have hplace' := (hgrows.leads hsources).place_eq
  unfold Paths.cSources
  split at hplace
  · next htoo =>
    rw [if_pos htoo] at hplace'
    simp [Tree.isDirectory, Tree.stat, hplace, hplace']
  · have hthere := Tree.isDirectory_of_node hplace hsources.directory
    rw [if_pos hthere, if_pos (hgrows.isDirectory hthere), filter_filesBelow hgrows hplace]

theorem isCSource_of_mem (h : p ∈ ps.cSources t) : isCSource p = true := by
  unfold Paths.cSources at h
  split at h
  · exact (List.mem_filter.mp (List.mem_mergeSort.mp h)).2
  · simp at h

/-- A C source is no program, so it is read as before. -/
theorem readCSource_again (hkeeps : t₁.KeepsFiles [ps.program] t') {place : List String}
    (hprogram : t'.place ps.program = .ok place) (hlast : place.getLast? = some "program.bin")
    (hp : isCSource p = true) {file : C.SourceFile} (h : readCSource t₁ ps p = .ok file) :
    readCSource t' ps p = .ok file := by
  obtain ⟨text, htext, h⟩ := bind_eq_ok.mp h
  refine bind_eq_ok.mpr ⟨text, readText_of_kept hkeeps htext ?_, h⟩
  rw [List.forall_mem_singleton]
  intro hsame
  have hname := name_of_isCSource hp
  simp only [builtNames, List.cons_append, List.nil_append, List.mem_cons, List.not_mem_nil,
    or_false, not_or] at hname
  obtain ⟨hnil, hup, -, hnot⟩ := hname
  obtain ⟨parts, name, hparts⟩ := (List.eq_nil_or_concat' p.parts).resolve_left fun hparts =>
    hnil (by rw [Path.name, hparts]; rfl)
  have hpname : p.name = name := by simp [Path.name, hparts]
  have hwalk := Tree.walk_of_place (hsame.symm.trans hprogram)
  rw [hparts] at hwalk
  have hends := Tree.getLast?_of_walk (hpname ▸ hup) hwalk
  exact hnot (hpname.trans (Option.some.inj (hends.symm.trans hlast)))

/-- The sources are read again to the same unit, if no include leads to the program. -/
theorem collect_again (hgrows : t₁.Grows (Tree.endsIn builtNames) t')
    (hkeeps : t₁.KeepsFiles [ps.program] t') (hsources : t₁.Leads ps.sources here)
    (hmain : ps.mainAssembly = ps.sources.child "main.asm") {place : List String}
    (hprogram : t'.place ps.program = .ok place) (hlast : place.getLast? = some "program.bin")
    (hincluded : ∀ u, Gathers t₁ ps.mainAssembly u → t'.place ps.program ≠ t'.place u.file)
    {constants : NameTable Number} {unit : Traced} (h : collect t₁ ps constants = .ok unit) :
    collect t' ps constants = .ok unit := by
  have hstat := hgrows.stat_child hsources (by decide : IsPlain "main.asm") (by simp [builtNames])
  have hfinds : finds t' ps.mainAssembly = finds t₁ ps.mainAssembly := by
    rw [hmain, finds, Tree.finds, hstat]
    rfl
  have hassembly {unit : Traced} (h : expandFile t₁ [] ps.mainAssembly = .ok unit) :
      expandFile t' [] ps.mainAssembly = .ok unit :=
    expandFile_of_kept hkeeps hgrows.length
      (fun u hu => List.forall_mem_singleton.mpr (hincluded u hu)) h
  have hc {unit : Traced} (h : compileSources t₁ ps constants (ps.cSources t₁) = .ok unit) :
      compileSources t' ps constants (ps.cSources t₁) = .ok unit := by
    obtain ⟨files, hfiles, h⟩ := bind_eq_ok.mp h
    refine bind_eq_ok.mpr ⟨files, mapM_of_imp (fun p hp file => ?_) hfiles, ?_⟩
    · exact readCSource_again hkeeps hprogram hlast (isCSource_of_mem hp)
    · rwa [hgrows.current]
  obtain ⟨found, hfound, h⟩ := bind_eq_ok.mp h
  refine bind_eq_ok.mpr ⟨found, hfinds.trans hfound, ?_⟩
  rw [cSources_again hgrows hsources]
  cases found with
  | true =>
    cases hlist : ps.cSources t₁ with
    | nil =>
      simp only [hlist, if_true] at h ⊢
      exact hassembly h
    | cons source rest =>
      rw [hlist] at hc
      simp only [hlist, if_true] at h ⊢
      obtain ⟨c, hcompiled, h⟩ := bind_eq_ok.mp h
      obtain ⟨assembly, hexpanded, h⟩ := bind_eq_ok.mp h
      exact bind_eq_ok.mpr ⟨c, hc hcompiled, bind_eq_ok.mpr ⟨assembly, hassembly hexpanded, h⟩⟩
  | false =>
    cases hlist : ps.cSources t₁ with
    | nil => simp [hlist] at h
    | cons source rest =>
      rw [hlist] at hc
      simp only [hlist, Bool.false_eq_true, if_false] at h ⊢
      obtain ⟨c, hcompiled, h⟩ := bind_eq_ok.mp h
      exact bind_eq_ok.mpr ⟨c, hc hcompiled, h⟩

end

def sourcesName (t : Tree) (root : Path) : String :=
  if !t.holds (root.child "src") && t.holds (root.child "asm") then "asm" else "src"

theorem isPlain_sourcesName (t : Tree) (root : Path) : IsPlain (sourcesName t root) := by
  unfold sourcesName
  split <;> decide

theorem Paths.sources_eq (t : Tree) (root : Path) :
    (Paths.ofRoot t root).sources = root.child (sourcesName t root) := by
  dsimp only [Paths.ofRoot, sourcesName]
  split <;> rfl

theorem Paths.headers_eq (t : Tree) (root : Path) :
    (Paths.ofRoot t root).headers = (Paths.ofRoot t root).sources.child "include" := rfl

theorem Paths.program_eq (t : Tree) (root : Path) :
    (Paths.ofRoot t root).program = (root.child "build").child "program.bin" := rfl

theorem Paths.program_parent (t : Tree) (root : Path) :
    (Paths.ofRoot t root).program.parent = root.child "build" := by
  rw [Paths.program_eq, Path.child_eq (by decide : IsPlain "program.bin"), Path.parent,
    List.dropLast_concat]

/-- All that a build makes in the directory of a project. -/
def madeNames (sources : String) : List String :=
  [sources, "include", assemblyHeaderName, cHeaderName] ++ builtNames

theorem builtNames_grow {here : List String} (hroot : t₁.Leads root here) {t₂ : Tree}
    {bytes : List UInt8} (hdirectory : t₁.ensureDirectories (root.child "build") = (.ok (), t₂))
    (hwritten : t₂.write ((root.child "build").child "program.bin") bytes = (.ok (), t')) :
    t₁.Grows (Tree.endsIn builtNames) t' := by
  rw [Path.child_eq (by decide)] at hdirectory
  have hmade := Tree.grows_ensureDirectories hroot (by simp) hdirectory
  exact (hmade.weaken (by simp [builtNames])).trans
    ((Tree.grows_write_child (by decide) hwritten).weaken (by simp [builtNames]))

theorem madeNames_grow {here : List String} (hroot : t.Leads root here)
    (h : writeHeaders (Paths.ofRoot t root).headers constants sprites t = (.ok r, t₁)) :
    t.Grows (Tree.endsIn (madeNames (sourcesName t root))) t₁ := by
  have hplain := isPlain_sourcesName t root
  refine writeHeaders_grows h (fun made hmade => ?_) (fun place hplace => ?_)
  · rw [Paths.headers_eq, Paths.sources_eq, Path.child_eq (by decide), Path.child_eq hplain,
      List.append_assoc] at hmade
    refine (Tree.grows_ensureDirectories hroot ?_ hmade).weaken (by simp [madeNames])
    simp [hplain.2.1]
  · exact Tree.endsIn_mono (by simp [madeNames]) hplace

/-- The second build finds the sources where the first one did. -/
theorem Paths.ofRoot_again (hgrows : t.Grows (fun _ => true) t')
    (hmade : ∀ here, t.Leads root here →
      t.Grows (Tree.endsIn (madeNames (sourcesName t root))) t')
    (hheaders : t'.isDirectory (Paths.ofRoot t root).headers = true)
    (hnull : (Paths.ofRoot t root).headers.hasNull = false) :
    Paths.ofRoot t' root = Paths.ofRoot t root := by
  have hname : sourcesName t' root = sourcesName t root := by
    cases holder : !t.holds (root.child "src") && t.holds (root.child "asm") with
    | true =>
      -- the directory of the project is there, and nothing named `src` is made in it
      have hasm : sourcesName t root = "asm" := if_pos holder
      obtain ⟨hsrc, hthere⟩ := Bool.and_eq_true_iff.mp holder
      obtain ⟨here, hhere⟩ := Tree.exists_leads_of_holds (by decide) hthere
      have hstat := (hmade here hhere).stat_child hhere (by decide : IsPlain "src")
        (by rw [hasm, Tree.endsIn_concat]; decide)
      have hsrc' : (!t'.holds (root.child "src")) = true := by
        rw [Tree.holds, hstat]
        exact hsrc
      rw [hasm, sourcesName, hsrc', hgrows.holds hthere]
      rfl
    | false =>
      have hsrc : sourcesName t root = "src" := if_neg (by simp [holder])
      have hthere : t'.holds (root.child "src") = true := by
        rw [Paths.headers_eq, Paths.sources_eq, hsrc] at hheaders hnull
        obtain ⟨_, hplace, -⟩ := Tree.leads_of_isDirectory hheaders
        exact Tree.holds_of_child (by decide) (by rw [Path.child_eq (by decide)]; simp) hnull hplace
      rw [hsrc, sourcesName, hthere]
      rfl
  have hsources := Paths.sources_eq t' root
  rw [hname, ← Paths.sources_eq] at hsources
  exact congrArg (Paths.under root) hsources

/-- A look for the sources that succeeded succeeds again in a project that is there. -/
theorem Paths.find_again (hgrows : t.Grows (fun _ => true) t') {here : List String}
    (hroot : t'.Leads root here) (h : Paths.find t root = .ok (.ofRoot t root)) :
    Paths.find t' root = .ok (.ofRoot t' root) := by
  obtain ⟨-, ⟨_, hsrc⟩, hasm⟩ := Paths.find_eq_ok.mp h
  refine Paths.find_eq_ok.mpr ⟨rfl, ?_, fun hnone => ?_⟩
  · exact ⟨_, finds_eq_ok.mpr (hroot.finds_child (by decide) (finds_eq_ok.mp hsrc))⟩
  · have hbefore : t.holds (root.child "src") = false := by
      rw [Bool.eq_false_iff]
      intro hthere
      simp [hgrows.holds hthere] at hnone
    obtain ⟨_, hasm⟩ := hasm hbefore
    exact ⟨_, finds_eq_ok.mpr (hroot.finds_child (by decide) (finds_eq_ok.mp hasm))⟩

theorem projectConfig_again
    (hroot : t.isDirectory root = true ∨ t'.holds (root.child configName) = false)
    (hgrows : t.Grows (fun _ => true) t')
    (hmade : ∀ here, t.Leads root here →
      t.Grows (Tree.endsIn (madeNames (sourcesName t root))) t')
    {here : List String} (hleads : t'.Leads root here) {config : Machine.Config}
    (h : projectConfig t root = .ok config) : projectConfig t' root = .ok config := by
  obtain ⟨found, hfound, h⟩ := bind_eq_ok.mp h
  rcases hroot with hroot | hroot
  · obtain ⟨here, -, hhere⟩ := Tree.leads_of_isDirectory hroot
    have hnot : configName ∉ madeNames (sourcesName t root) := by
      unfold sourcesName
      split <;> decide
    have hstat := (hmade here hhere).stat_child hhere (by decide : IsPlain configName)
      (by simpa using hnot)
    have hfinds : finds t' (root.child configName) = finds t (root.child configName) := by
      rw [finds, Tree.finds, hstat]
      rfl
    have hread : t'.read (root.child configName) = t.read (root.child configName) := by
      rw [Tree.read, hstat, Tree.read]
    have hload : loadConfig t' (root.child configName) = loadConfig t (root.child configName) := by
      rw [loadConfig, readBytes, hread]
      rfl
    exact bind_eq_ok.mpr ⟨found, hfinds.trans hfound, by rwa [hload]⟩
  · have hbefore : t.holds (root.child configName) = false := by
      rw [Bool.eq_false_iff]
      intro hthere
      simp [hgrows.holds hthere] at hroot
    obtain rfl : found = false := (holds_of_finds hfound).symm.trans hbefore
    have hfinds := hleads.finds_child (by decide) (finds_eq_ok.mp hfound)
    exact bind_eq_ok.mpr ⟨false, finds_eq_ok.mpr (hroot ▸ hfinds), h⟩

/-- A project that has been built is built again to the same artifacts, and nothing changes. The
directory of the project is there before the first build, or there is no configuration in it
afterwards, and no include of the assembly leads to the program. -/
theorem buildProject_again (h : buildProject root none none t = (.ok a, t'))
    (hroot : t.isDirectory root = true ∨ t'.holds (root.child configName) = false)
    (hincluded : ∀ u, Gathers (assembleProject root none t).2 (Paths.ofRoot t root).mainAssembly u →
      t'.place (Paths.ofRoot t root).program ≠ t'.place u.file) :
    buildProject root none none t' = (.ok a, t') := by
  obtain ⟨t₁, t₂, hassembled, hnull, hdirectory, hnull', hwritten⟩ := buildProject_eq_ok_iff.mp h
  rw [hassembled] at hincluded
  obtain ⟨hfind, config, layout, r, hconfig, hlayout, hheaders, hunit, himage, horigins, haddress⟩ :=
    assembleProject_eq_ok_iff.mp hassembled
  have hthere := writeHeaders_isDirectory hheaders
  -- the directories that the headers are below
  obtain ⟨here, hleads⟩ : ∃ here, t₁.Leads (Paths.ofRoot t root).sources here := by
    obtain ⟨_, hplace, -⟩ := Tree.leads_of_isDirectory hthere
    rw [Paths.headers_eq] at hplace
    obtain ⟨here, hleads, -⟩ := Tree.exists_leads_of_child (by decide) hplace
    exact ⟨here, hleads⟩
  obtain ⟨_, hleadsRoot, -⟩ : ∃ here, t₁.Leads root here ∧ _ := by
    have hwalk := hleads.walk
    rw [Paths.sources_eq] at hwalk
    exact Tree.exists_leads_of_walk (isPlain_sourcesName t root) hwalk
  -- what the first build does after it has read the sources
  have hprogram : t'.Settled (Paths.ofRoot t root).program a.program := Tree.settled_write hwritten
  have hkeeps : t₁.KeepsFiles [(Paths.ofRoot t root).program] t' :=
    ((Tree.keepsFiles_of_ensureDirectories hdirectory).mono (List.nil_subset _)).trans
      (Tree.keepsFiles_of_write hwritten)
  have hbuild : t'.isDirectory (Paths.ofRoot t root).program.parent = true :=
    (Tree.keepsFiles_of_write hwritten).isDirectory (Tree.isDirectory_of_ensureDirectories hdirectory)
  have hbuilt : t₁.Grows (Tree.endsIn builtNames) t' := by
    rw [Paths.program_parent] at hdirectory
    rw [Paths.program_eq] at hwritten
    exact builtNames_grow hleadsRoot hdirectory hwritten
  -- what it does at all
  have hgrows : t.Grows (fun _ => true) t' :=
    (writeHeaders_grows hheaders
      (fun _ hmade => Tree.grows_ensureParents hmade fun _ _ _ _ _ _ _ => rfl)
      fun _ _ => rfl).trans (hbuilt.mono fun _ _ => rfl)
  have hmade (here : List String) (hhere : t.Leads root here) :
      t.Grows (Tree.endsIn (madeNames (sourcesName t root))) t' :=
    (madeNames_grow hhere hheaders).trans (hbuilt.weaken (List.subset_append_right _ _))
  -- so the second build starts from the same paths, settings and sources
  have hleadsRoot' := hbuilt.leads hleadsRoot
  have hpaths := Paths.ofRoot_again hgrows hmade (hbuilt.isDirectory hthere)
    (writeHeaders_hasNull hheaders)
  have hfind' := Paths.find_again hgrows hleadsRoot' hfind
  have hconfig' := projectConfig_again hroot hgrows hmade hleadsRoot' hconfig
  obtain ⟨place, hplace, hsettled⟩ := hprogram
  have hlast : place.getLast? = some "program.bin" := by
    obtain ⟨_, -, rfl⟩ := Tree.exists_leads_of_child (by decide) (Paths.program_eq t root ▸ hplace)
    simp
  have hunit' := collect_again hbuilt hkeeps hleads rfl hplace hlast hincluded hunit
  refine buildProject_eq_ok_iff.mpr ⟨t', t', assembleProject_eq_ok_iff.mpr ⟨hfind', config, layout, r,
    hconfig', hlayout, ?_, ?_, ?_, horigins, haddress⟩, ?_, ?_, ?_, ?_⟩
  · rw [hpaths]
    exact writeHeaders_again hheaders hbuilt
  · rw [hpaths]
    exact hunit'
  · rw [← himage, assembleMerged, hbuilt.current]
    rfl
  · rw [hpaths]
    exact hnull
  · rw [hpaths]
    exact Tree.ensureDirectories_of_isDirectory hbuild
  · rw [hpaths]
    exact hnull'
  · rw [hpaths]
    exact Tree.Settled.write ⟨place, hplace, hsettled⟩

def shortScreen : Tree where
  entries := [(["w"], .directory), (["w", "src"], .directory),
    (["w", "chipcade.toml"], .file (Text.encodeUtf8 "[video]\nheight = 100\n".toList)),
    (["w", "src", "main.asm"], .file (Text.encodeUtf8 "Start: NOP\n".toList)),
    (["w", "src", "main.c"],
      .file (Text.encodeUtf8 "void Update() \x7b\n    mem[0] = VIDEO_HEIGHT;\n\x7d\n".toList))]
  current := ["w"]

theorem shortScreen_gathers (h : (readIncluded t p).toOption = some "Start: NOP\n") {u : Piece}
    (hu : Gathers t p u) : u.file = p := by
  refine hu.file_eq fun text htext => ?_
  obtain rfl := Except.ok.inj (htext.symm.trans (eq_ok_of_toOption h))
  exact (by decide +kernel :
    (Text.lines "Start: NOP\n").filter (fun line => isInclude line.toList) = [])

theorem shortScreen_built_again :
    ∃ a t', buildProject (Path.ofText ".") none none shortScreen = (.ok a, t') ∧
      a.program = [0xEA, 0xA9, 0x64, 0x8D, 0x00, 0x00, 0x00] ∧
      buildProject (Path.ofText ".") none none t' = (.ok a, t') := by
  have hbuild : let paths := Paths.ofRoot shortScreen (Path.ofText ".")
      let r := buildProject (Path.ofText ".") none none shortScreen
      (r.1.toOption.map fun a => a.program) = some [0xEA, 0xA9, 0x64, 0x8D, 0x00, 0x00, 0x00] ∧
        r.2.place paths.program ≠ r.2.place paths.mainAssembly ∧
        (readIncluded (assembleProject (Path.ofText ".") none shortScreen).2
          paths.mainAssembly).toOption = some "Start: NOP\n" := by decide +kernel
  obtain ⟨hfirst, hplaces, hmain⟩ := hbuild
  obtain ⟨a, t', hrun, hprogram⟩ := Disk.exists_eq_ok hfirst
  rw [hrun] at hplaces
  refine ⟨a, t', hrun, hprogram, buildProject_again hrun (.inl (by decide +kernel)) fun u hu => ?_⟩
  rw [shortScreen_gathers hmain hu]
  exact hplaces

/-- Where the first build makes the directory that the path of the project leads through, only the
second one finds the configuration. -/
theorem shortScreen_built_otherwise :
    ∃ a t' a' t'', buildProject (Path.ofText "x/..") none none shortScreen = (.ok a, t') ∧
      (∀ u, Gathers (assembleProject (Path.ofText "x/..") none shortScreen).2
        (Paths.ofRoot shortScreen (Path.ofText "x/..")).mainAssembly u →
          t'.place (Paths.ofRoot shortScreen (Path.ofText "x/..")).program ≠ t'.place u.file) ∧
      buildProject (Path.ofText "x/..") none none t' = (.ok a', t'') ∧
      a.program = [0xEA, 0xA9, 0xC0, 0x8D, 0x00, 0x00, 0x00] ∧
      a'.program = [0xEA, 0xA9, 0x64, 0x8D, 0x00, 0x00, 0x00] := by
  have hbuilds : let paths := Paths.ofRoot shortScreen (Path.ofText "x/..")
      let r := buildProject (Path.ofText "x/..") none none shortScreen
      (r.1.toOption.map fun a => a.program) = some [0xEA, 0xA9, 0xC0, 0x8D, 0x00, 0x00, 0x00] ∧
        r.2.place paths.program ≠ r.2.place paths.mainAssembly ∧
        (readIncluded (assembleProject (Path.ofText "x/..") none shortScreen).2
          paths.mainAssembly).toOption = some "Start: NOP\n" ∧
        ((buildProject (Path.ofText "x/..") none none r.2).1.toOption.map fun a => a.program) =
          some [0xEA, 0xA9, 0x64, 0x8D, 0x00, 0x00, 0x00] := by decide +kernel
  obtain ⟨hfirst, hplaces, hmain, hsecond⟩ := hbuilds
  obtain ⟨a, t', hrun, hprogram⟩ := Disk.exists_eq_ok hfirst
  rw [hrun] at hplaces hsecond
  obtain ⟨a', t'', hrun', hprogram'⟩ := Disk.exists_eq_ok hsecond
  refine ⟨a, t', a', t'', hrun, fun u hu => ?_, hrun', hprogram, hprogram'⟩
  rw [shortScreen_gathers hmain hu]
  exact hplaces

end Project

end Toolchain6502
