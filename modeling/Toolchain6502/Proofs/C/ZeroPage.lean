import Mathlib.Data.List.Nodup
import Toolchain6502.Proofs.C.DeclarationLines
import Toolchain6502.Proofs.C.Ranges

namespace Toolchain6502.C

open Files Source Text

variable {a : Allocation} {current : List String} {f : SourceFile} {line : SourceLine}
  {files : List SourceFile} {rest : List SourceLine} {s : Pass × List Variable}
  {declared : List Variable} {fault : Fault}

/-- Some variables have taken the bytes from the base on, one after the other. -/
structure Packed (cursor : Int) (vs : List Variable) : Prop where
  addresses : vs.map Variable.address =
    (List.range vs.length).map fun k : Nat => zeroPageBase + k
  next : cursor = zeroPageBase + vs.length
  bound : cursor ≤ zeroPageLimit

/-- Each of some variables has a byte of its own, and none has one that code needs for itself. -/
structure Apart (vs : List Variable) : Prop where
  range : ∀ v ∈ vs, 0x40 ≤ v.address ∧ v.address ≤ 0xFE
  nodup : (vs.map Variable.address).Nodup
  scratch : ∀ v ∈ vs, v.address ∉ [leftByte, rightByte, countByte, comparedByte]

namespace Packed

variable {cursor : Int} {vs : List Variable}

theorem nil : Packed zeroPageBase [] := ⟨by simp, by simp, by decide⟩

theorem length_le (h : Packed cursor vs) : vs.length ≤ 191 := by
  have hnext := h.next
  have hbound := h.bound
  simp only [zeroPageBase, zeroPageLimit] at hnext hbound
  omega

theorem full_iff (h : Packed cursor vs) : zeroPageLimit ≤ cursor ↔ vs.length = 191 := by
  have hnext := h.next
  have hbound := h.bound
  simp only [zeroPageBase, zeroPageLimit] at hnext hbound ⊢
  omega

theorem place {a' : Allocation} (h : Packed a.next vs) {name : String} {location : Location}
    {v : Variable} (ha : a.place name location = .ok (v, a')) : Packed a'.next (vs ++ [v]) := by
  obtain ⟨hroom, rfl, rfl⟩ := place_eq_ok.mp ha
  have hnext := h.next
  refine ⟨?_, ?_, ?_⟩
  · rw [List.map_append, h.addresses, List.length_append, List.length_singleton, List.range_succ,
      List.map_append, hnext]
    rfl
  · rw [List.length_append, List.length_singleton]
    change a.next + 1 = zeroPageBase + ((vs.length : Int) + 1)
    omega
  · change a.next + 1 ≤ zeroPageLimit
    omega

theorem apart (h : Packed cursor vs) : Apart vs := by
  have hrange (v : Variable) (hv : v ∈ vs) : 0x40 ≤ v.address ∧ v.address ≤ 0xFE := by
    have hmem := List.mem_map_of_mem (f := Variable.address) hv
    rw [h.addresses] at hmem
    obtain ⟨k, hk, haddress⟩ := List.mem_map.mp hmem
    have hlt := List.mem_range.mp hk
    have hlength := h.length_le
    simp only [zeroPageBase] at haddress
    omega
  refine ⟨hrange, ?_, ?_⟩
  · rw [h.addresses]
    refine List.Nodup.map ?_ List.nodup_range
    intro j k hjk
    simp only at hjk
    omega
  · intro v hv hscratch
    have hv := hrange v hv
    simp only [leftByte, rightByte, countByte, comparedByte, List.mem_cons, List.not_mem_nil,
      or_false] at hscratch
    omega

end Packed

/-- No two names that are seen stand for the same byte. -/
def Scope.Injective (s : Scope) : Prop :=
  ∀ n m address, s.address? n = some address → s.address? m = some address → n = m

/-- The names that are seen are those of some of the variables. -/
def Scope.Sees (s : Scope) (vs : List Variable) : Prop :=
  s.addresses.Sublist (vs.map fun v => (v.name, v.address))

theorem Scope.Sees.injective {s : Scope} {vs : List Variable} (h : s.Sees vs) (hvs : Apart vs) :
    s.Injective := by
  have hnodup : (s.addresses.map Prod.snd).Nodup := by
    refine List.Nodup.sublist (h.map Prod.snd) ?_
    rw [List.map_map]
    exact hvs.nodup
  intro n m address hn hm
  exact congrArg Prod.fst (List.inj_on_of_nodup_map hnodup (mem_of_lookup hn) (mem_of_lookup hm) rfl)

theorem Scope.Sees.withVariable {s : Scope} {vs : List Variable} (h : s.Sees vs) (v : Variable) :
    (s.withVariable v.name v.address).Sees (vs ++ [v]) := by
  unfold Scope.Sees
  rw [List.map_append]
  exact h.append (.refl _)

/-- The variable that a line declares, at the address where statements find it from then on. -/
def Pass.newVariable (p : Pass) (location : Location) (d : Option Declaration) : List Variable :=
  d.toList.map fun d => ⟨d.name, (p.scope.address? d.name).getD 0, location⟩

/-- The variables declared so far: they stand in a row, and statements see some of them. -/
structure Pass.Tracks (p : Pass) (vs : List Variable) : Prop where
  packed : Packed p.allocation.next vs
  seen : (p.allocation.globals ++ p.locals).Sublist vs

section

variable {p p' : Pass} {vs : List Variable}

theorem Pass.Tracks.scope (h : p.Tracks vs) : p.scope.Sees vs := h.seen.map _

theorem Pass.Tracks.globalScope (h : p.Tracks vs) : p.globalScope.Sees vs :=
  ((List.sublist_append_left _ _).trans h.seen).map _

/-- A line adds the variable that it declares to the row. -/
theorem Pass.Tracks.extends (h : p.Tracks vs) {location : Location} {d : Option Declaration}
    (hp : p.Extends p' location d) : p'.Tracks (vs ++ p'.newVariable location d) := by
  cases hp with
  | nothing hconstants hallocation hlocals =>
    rw [Pass.newVariable, Option.toList_none, List.map_nil, List.append_nil]
    refine ⟨hallocation ▸ h.packed, ?_⟩
    rw [hallocation]
    rcases hlocals with hlocals | hlocals
    · exact hlocals ▸ h.seen
    · rw [hlocals, List.append_nil]
      exact (List.sublist_append_left _ _).trans h.seen
  | @places d v a hnew hplace hconstants hallocation hlocals =>
    obtain ⟨-, hv, ha⟩ := place_eq_ok.mp hplace
    have hglobals : a.globals = p.allocation.globals := by rw [ha]
    have hfound : p'.newVariable location (some d) = [v] := by
      have hmiss := lookup_addresses_eq_none_iff.mpr hnew
      have haddress : p'.scope.address? d.name = some v.address := by
        unfold Scope.address? Pass.scope
        rw [hallocation, hlocals, hglobals, ← List.append_assoc, List.map_append,
          List.lookup_append, hmiss, hv]
        simp
      simp [Pass.newVariable, haddress, hv]
    rw [hfound]
    refine ⟨hallocation ▸ h.packed.place hplace, ?_⟩
    rw [hallocation, hlocals, hglobals, ← List.append_assoc]
    exact h.seen.append (.refl _)

end

/-- A line of the second pass, with the variables declared so far. -/
def Pass.track (f : SourceFile) (path : Path) (s : Pass × List Variable) (line : SourceLine) :
    Except Failure (Pass × List Variable) := do
  let p ← s.1.line f path line
  return (p, s.2 ++ p.newVariable (f.location line) (s.1.localAt? line))

def Pass.trackFile (current : List String) (s : Pass × List Variable) (f : SourceFile) :
    Except Failure (Pass × List Variable) := do
  let path ← canonical current f.path
  let s ← (sourceLines f.text).foldlM (track f path) s
  match s.1.openAtEnd? with
  | some fault => .error (.c { fault, location := some { file := f.name, line := 0 } })
  | none => return s

/-- The first pass has come to some lines of a file. -/
inductive Placing (current : List String) (files : List SourceFile) (f : SourceFile)
    (rest : List SourceLine) (s : Nat × Allocation) : Prop
  | intro {earlier later : List SourceFile} {before : List SourceLine} {a : Allocation}
      (hfiles : files = earlier ++ f :: later) (hlines : sourceLines f.text = before ++ rest)
      (hearlier : earlier.foldlM (Allocation.addFile current) {} = .ok a)
      (hbefore : before.foldlM (Allocation.line current f) (0, a) = .ok s)

/-- The second pass has come to some lines of a file. -/
inductive Compiling (current : List String) (constants : NameTable Number)
    (files : List SourceFile) (f : SourceFile) (rest : List SourceLine)
    (s : Pass × List Variable) : Prop
  | intro {earlier later : List SourceFile} {before : List SourceLine} {a : Allocation}
      {start : Pass} {q : Pass × List Variable} {path : Path}
      (hfiles : files = earlier ++ f :: later) (hlines : sourceLines f.text = before ++ rest)
      (hplaced : files.foldlM (Allocation.addFile current) {} = .ok a)
      (hstart : Pass.addInit { constants, allocation := a } = .ok start)
      (hearlier : earlier.foldlM (Pass.trackFile current) (start, a.globals) = .ok q)
      (hpath : canonical current f.path = .ok path)
      (hbefore : before.foldlM (Pass.track f path) q = .ok s)

/-- A point of a compilation: what statements see there, the variables declared so far, and the
declaration that comes next, if there is one. -/
inductive Reached (current : List String) (constants : NameTable Number) (files : List SourceFile) :
    Scope → List Variable → Option Declaration → Prop
  | placing {f : SourceFile} {rest : List SourceLine} {depth : Nat} {a : Allocation}
      {next : Option Declaration} (h : Placing current files f rest (depth, a))
      (hnext : next = if depth = 0 then rest.head?.bind fun l => globalAt? l.text else none) :
      Reached current constants files (Pass.globalScope { constants, allocation := a }) a.globals next
  | compiling {f : SourceFile} {rest : List SourceLine} {p : Pass} {vs : List Variable}
      {next : Option Declaration} (h : Compiling current constants files f rest (p, vs))
      (hnext : next = rest.head?.bind p.localAt?) : Reached current constants files p.scope vs next
  /-- The initial values of globals are set where `Init` is opened. -/
  | setting {f : SourceFile} {rest : List SourceLine} {p : Pass} {vs : List Variable}
      (h : Compiling current constants files f rest (p, vs)) :
      Reached current constants files p.globalScope vs none
  /-- The initial value of a local may name the local. -/
  | initializing {f : SourceFile} {line : SourceLine} {rest : List SourceLine} {p : Pass}
      {vs : List Variable} {d : Declaration} {v : Variable} {a : Allocation}
      (h : Compiling current constants files f (line :: rest) (p, vs))
      (hd : p.localAt? line = some d) (hnew : p.scope.address? d.name = none)
      (hplace : p.allocation.place d.name (f.location line) = .ok (v, a)) :
      Reached current constants files (p.scope.withVariable v.name v.address) (vs ++ [v]) none

theorem Allocation.line_packed {s s' : Nat × Allocation} (h : Packed s.2.next s.2.globals)
    (hs : Allocation.line current f s line = .ok s') : Packed s'.2.next s'.2.globals := by
  obtain ⟨depth, a⟩ := s
  obtain ⟨depth', a'⟩ := s'
  cases depth with
  | succ depth =>
    obtain ⟨-, rfl⟩ := Prod.mk.inj (Except.ok.inj hs)
    exact h
  | zero =>
    cases topLine_kind (atLine_eq_ok.mp hs) with
    | function _ _ => exact h
    | nothing _ _ => exact h
    | @global d _ hglobal hadd =>
      obtain ⟨hroom, added, rfl, -, -⟩ := addGlobal_eq_ok hadd
      have hplace : a.place d.name (f.location line) = .ok (⟨d.name, a.next, f.location line⟩, _) :=
        place_eq_ok.mpr ⟨hroom, rfl, rfl⟩
      have hpacked : Packed a.next a.globals := h
      exact (hpacked.place hplace : Packed (a.next + 1) _)

theorem Allocation.addFile_packed {a' : Allocation} (h : Packed a.next a.globals)
    (ha : addFile current a f = .ok a') : Packed a'.next a'.globals := by
  obtain ⟨depth, hlines⟩ := addFile_eq_ok ha
  exact foldlM_preserves (P := fun s : Nat × Allocation => Packed s.2.next s.2.globals)
    (fun _ _ _ _ h hs => line_packed h hs) h hlines

theorem Placing.packed {s : Nat × Allocation} (h : Placing current files f rest s) :
    Packed s.2.next s.2.globals := by
  obtain ⟨-, -, hearlier, hbefore⟩ := h
  have ha := foldlM_preserves (P := fun a : Allocation => Packed a.next a.globals)
    (fun _ _ _ _ h ha => Allocation.addFile_packed h ha) Packed.nil hearlier
  exact foldlM_preserves (P := fun s : Nat × Allocation => Packed s.2.next s.2.globals)
    (fun _ _ _ _ h hs => Allocation.line_packed h hs) ha hbefore

theorem Pass.track_tracks {path : Path} {s' : Pass × List Variable} (h : s.1.Tracks s.2)
    (hs : Pass.track f path s line = .ok s') : s'.1.Tracks s'.2 := by
  obtain ⟨p, hp, hs⟩ := bind_eq_ok.mp hs
  obtain rfl := Except.ok.inj hs
  exact h.extends (line_extends hp)

theorem Pass.trackFile_tracks {s' : Pass × List Variable} (h : s.1.Tracks s.2)
    (hs : Pass.trackFile current s f = .ok s') : s'.1.Tracks s'.2 := by
  obtain ⟨path, -, hs⟩ := bind_eq_ok.mp hs
  obtain ⟨q, hq, hs⟩ := bind_eq_ok.mp hs
  have htracks := foldlM_preserves (P := fun s : Pass × List Variable => s.1.Tracks s.2)
    (fun _ _ _ _ h hs => track_tracks h hs) h hq
  split at hs
  · simp at hs
  · exact Except.ok.inj hs ▸ htracks

/-- The second pass starts with the globals alone. -/
theorem Pass.addInit_tracks {constants : NameTable Number} {a : Allocation} {p : Pass}
    (ha : Packed a.next a.globals) (hp : Pass.addInit { constants, allocation := a } = .ok p) :
    p.Tracks a.globals := by
  have hstart : Pass.Tracks { constants, allocation := a } a.globals := by
    refine ⟨ha, ?_⟩
    rw [List.append_nil]
  have htracks := hstart.extends (addInit_extends { file := "", line := 0 } hp)
  rwa [newVariable, Option.toList_none, List.map_nil, List.append_nil] at htracks

theorem Compiling.tracks {constants : NameTable Number}
    (h : Compiling current constants files f rest s) : s.1.Tracks s.2 := by
  obtain ⟨-, -, hplaced, hstart, hearlier, -, hbefore⟩ := h
  have ha := foldlM_preserves (P := fun a : Allocation => Packed a.next a.globals)
    (fun _ _ _ _ h ha => Allocation.addFile_packed h ha) Packed.nil hplaced
  have hq := foldlM_preserves (P := fun s : Pass × List Variable => s.1.Tracks s.2)
    (fun _ _ _ _ h hs => Pass.trackFile_tracks h hs) (Pass.addInit_tracks ha hstart) hearlier
  exact foldlM_preserves (P := fun s : Pass × List Variable => s.1.Tracks s.2)
    (fun _ _ _ _ h hs => Pass.track_tracks h hs) hq hbefore

/-- At every point the variables declared so far stand in a row, and statements see some of them. -/
theorem Reached.packed {constants : NameTable Number} {scope : Scope} {next : Option Declaration}
    (h : Reached current constants files scope declared next) :
    (∃ cursor, Packed cursor declared) ∧ scope.Sees declared := by
  cases h with
  | placing h => exact ⟨⟨_, h.packed⟩, .refl _⟩
  | compiling h => exact ⟨⟨_, h.tracks.packed⟩, h.tracks.scope⟩
  | setting h => exact ⟨⟨_, h.tracks.packed⟩, h.tracks.globalScope⟩
  | initializing h _ _ hplace =>
    exact ⟨⟨_, h.tracks.packed.place hplace⟩, h.tracks.scope.withVariable _⟩

theorem Allocation.fails_addFiles_iff :
    Fails (files.foldlM (addFile current) {}) fault ↔
      ∃ f line rest s, Placing current files f (line :: rest) s ∧
        Fails (Allocation.line current f s line) fault := by
  rw [fails_foldlM_iff]
  constructor
  · rintro ⟨earlier, f, later, a, rfl, hearlier, h⟩
    rw [addFile, addLines_eq_foldlM, fails_map_iff, fails_foldlM_iff] at h
    obtain ⟨before, line, rest, s, hlines, hbefore, h⟩ := h
    exact ⟨f, line, rest, s, .intro rfl hlines hearlier hbefore, h⟩
  · rintro ⟨f, line, rest, s, ⟨hfiles, hlines, hearlier, hbefore⟩, h⟩
    refine ⟨_, f, _, _, hfiles, hearlier, ?_⟩
    rw [addFile, addLines_eq_foldlM, fails_map_iff, fails_foldlM_iff]
    exact ⟨_, line, rest, s, hlines, hbefore, h⟩

theorem foldlM_map {f : σ → α → Except ε σ} {g : τ → α → Except ε τ} {π : τ → σ}
    (h : ∀ t a, (g t a).map π = f (π t) a) (l : List α) (t : τ) :
    (l.foldlM g t).map π = l.foldlM f (π t) := by
  induction l generalizing t with
  | nil => rfl
  | cons a l ih =>
    rw [List.foldlM_cons, List.foldlM_cons, ← h]
    cases g t a with
    | error e => rfl
    | ok t' => exact ih t'

theorem Pass.track_fst (f : SourceFile) (path : Path) (s : Pass × List Variable)
    (line : SourceLine) : (track f path s line).map Prod.fst = s.1.line f path line := by
  unfold track
  cases s.1.line f path line <;> rfl

theorem Pass.trackFile_fst (current : List String) (s : Pass × List Variable) (f : SourceFile) :
    (trackFile current s f).map Prod.fst = s.1.file current f := by
  unfold trackFile Pass.file
  cases canonical current f.path with
  | error e => rfl
  | ok path =>
    rw [ok_bind, ok_bind, ← foldlM_map (track_fst f path)]
    cases (sourceLines f.text).foldlM (track f path) s with
    | error e => rfl
    | ok s =>
      simp only [ok_bind, Except.map]
      cases s.1.openAtEnd? <;> rfl

/-- Apart from what is still open at its end, a file fails at one of its lines. -/
theorem Pass.fails_trackFile_iff (hfault : ∀ p : Pass, p.openAtEnd? ≠ some fault) :
    Fails (trackFile current s f) fault ↔ ∃ path, canonical current f.path = .ok path ∧
      Fails ((sourceLines f.text).foldlM (track f path) s) fault := by
  unfold trackFile
  simp only [fails_bind_iff, not_fails_canonical, false_or]
  refine exists_congr fun path => and_congr_right fun _ => or_iff_left ?_
  rintro ⟨s', -, d, hd, rfl⟩
  split at hd
  · rename_i cause hopen
    obtain rfl := Failure.c.inj (Except.error.inj hd)
    exact hfault s'.1 hopen
  · simp at hd

section

variable {current : List String} {constants : NameTable Number} {files : List SourceFile}

theorem Pass.fails_files_iff {a : Allocation} {start : Pass} {fault : Fault}
    (ha : files.foldlM (Allocation.addFile current) {} = .ok a)
    (hstart : Pass.addInit { constants, allocation := a } = .ok start)
    (hfault : ∀ p : Pass, p.openAtEnd? ≠ some fault) :
    Fails (files.foldlM (Pass.file current) start) fault ↔
      ∃ f line rest s path, Compiling current constants files f (line :: rest) s ∧
        canonical current f.path = .ok path ∧ Fails (s.1.line f path line) fault := by
  have hmap := foldlM_map (trackFile_fst current) files (start, a.globals)
  rw [← hmap, fails_map_iff, fails_foldlM_iff]
  have hline (f : SourceFile) (path : Path) (s : Pass × List Variable) (line : SourceLine) :
      Fails (track f path s line) fault ↔ Fails (s.1.line f path line) fault := by
    rw [← track_fst, fails_map_iff]
  constructor
  · rintro ⟨earlier, f, later, q, rfl, hearlier, h⟩
    obtain ⟨path, hpath, h⟩ := (fails_trackFile_iff hfault).mp h
    obtain ⟨before, line, rest, s, hlines, hbefore, h⟩ := fails_foldlM_iff.mp h
    exact ⟨f, line, rest, s, path, .intro rfl hlines ha hstart hearlier hpath hbefore, hpath,
      (hline _ _ _ _).mp h⟩
  · rintro ⟨f, line, rest, s, path, ⟨hfiles, hlines, ha', hstart', hearlier, hpath', hbefore⟩,
      hpath, h⟩
    obtain rfl := Except.ok.inj (ha.symm.trans ha')
    obtain rfl := Except.ok.inj (hstart.symm.trans hstart')
    obtain rfl := Except.ok.inj (hpath.symm.trans hpath')
    refine ⟨_, f, _, _, hfiles, hearlier, (fails_trackFile_iff hfault).mpr ⟨path, hpath, ?_⟩⟩
    exact fails_foldlM_iff.mpr ⟨_, line, rest, s, hlines, hbefore, (hline _ _ _ _).mpr h⟩

/-- A line that fails in the first pass is where the compilation fails. -/
theorem Placing.fails {s : Nat × Allocation} (h : Placing current files f (line :: rest) s)
    (hline : Fails (Allocation.line current f s line) fault) :
    Fails (compile current { constants } files) fault := by
  unfold compile
  rw [fails_bind_iff]
  exact .inl (Allocation.fails_addFiles_iff.mpr ⟨f, line, rest, s, h, hline⟩)

theorem Compiling.fails (h : Compiling current constants files f (line :: rest) s)
    (hfault : ∀ p : Pass, p.openAtEnd? ≠ some fault)
    (hline : ∀ path, Fails (s.1.line f path line) fault) :
    Fails (compile current { constants } files) fault := by
  have ⟨hfiles, hlines, ha, hstart, hearlier, hpath, hbefore⟩ := h
  unfold compile
  refine fails_bind_iff.mpr (.inr ⟨_, ha, fails_bind_iff.mpr (.inr ⟨_, hstart, ?_⟩)⟩)
  refine fails_bind_iff.mpr (.inl ((Pass.fails_files_iff ha hstart hfault).mpr ?_))
  exact ⟨f, line, rest, s, _, h, hpath, hline _⟩

theorem openAtEnd?_ne_exhausted (name : String) (p : Pass) :
    p.openAtEnd? ≠ some (.zeroPageExhausted name) := by
  unfold Pass.openAtEnd?
  split_ifs <;> simp

theorem openAtEnd?_ne_duplicate (kind : Kind) (name : String) (first : Location) (p : Pass) :
    p.openAtEnd? ≠ some (.duplicate kind name first) := by
  unfold Pass.openAtEnd?
  split_ifs <;> simp

/-- Where page zero runs out, a declaration comes next and the row is full. -/
theorem exists_reached_of_unplaced {name : String}
    (h : Unplaced (compile current { constants } files) name) :
    ∃ scope declared d, Reached current constants files scope declared (some d) ∧
      d.name = name ∧ scope.address? name = none ∧ declared.length = 191 := by
  unfold compile at h
  simp only [fails_bind_iff, Pass.not_unplaced_addInit, false_or, pure_eq_ok, not_fails_ok,
    and_false, exists_false, or_false] at h
  rcases h with h | ⟨a, ha, start, hstart, h⟩
  · obtain ⟨f, line, rest, ⟨depth, a⟩, hplacing, h⟩ := Allocation.fails_addFiles_iff.mp h
    obtain ⟨rfl, d, hd, rfl, hnew, hfull⟩ := Allocation.unplaced_line_iff.mp h
    refine ⟨_, _, d, .placing hplacing ?_, rfl, lookup_addresses_eq_none_iff.mpr hnew,
      hplacing.packed.full_iff.mp hfull⟩
    rw [if_pos rfl, List.head?_cons, Option.bind_some, hd]
  · obtain ⟨f, line, rest, ⟨p, vs⟩, path, hcompiling, -, h⟩ :=
      (Pass.fails_files_iff ha hstart (openAtEnd?_ne_exhausted name)).mp h
    obtain ⟨d, hd, rfl, hnew, hfull⟩ := Pass.unplaced_line_iff.mp h
    refine ⟨_, _, d, .compiling hcompiling ?_, rfl, hnew,
      hcompiling.tracks.packed.full_iff.mp hfull⟩
    rw [List.head?_cons, Option.bind_some, hd]

/-- A declaration that comes next is that of a line in one of the passes. -/
theorem Reached.declares {scope : Scope} {d : Declaration}
    (h : Reached current constants files scope declared (some d)) :
    (∃ f line rest a, Placing current files f (line :: rest) (0, a) ∧
      globalAt? line.text = some d ∧ declared = a.globals ∧
      scope = Pass.globalScope { constants, allocation := a }) ∨
    ∃ f line rest p, Compiling current constants files f (line :: rest) (p, declared) ∧
      p.localAt? line = some d ∧ scope = p.scope := by
  generalize hd : some d = next at h
  cases h with
  | setting h => simp at hd
  | initializing h _ _ _ => simp at hd
  | @placing f rest depth a _ h hnext =>
    rw [← hd] at hnext
    split_ifs at hnext with hdepth
    subst hdepth
    obtain ⟨line, hline, hdeclares⟩ := Option.bind_eq_some_iff.mp hnext.symm
    obtain ⟨rest, rfl⟩ := List.head?_eq_some_iff.mp hline
    exact .inl ⟨f, line, rest, a, h, hdeclares.trans hd, rfl, rfl⟩
  | @compiling f rest p vs _ h hnext =>
    rw [← hd] at hnext
    obtain ⟨line, hline, hdeclares⟩ := Option.bind_eq_some_iff.mp hnext.symm
    obtain ⟨rest, rfl⟩ := List.head?_eq_some_iff.mp hline
    exact .inr ⟨f, line, rest, p, h, hdeclares.trans hd, rfl⟩

theorem Reached.unplaced {scope : Scope} {d : Declaration}
    (h : Reached current constants files scope declared (some d))
    (hnew : scope.address? d.name = none) (hfull : declared.length = 191) :
    Unplaced (compile current { constants } files) d.name := by
  rcases h.declares with ⟨f, line, rest, a, hat, hd, rfl, rfl⟩ | ⟨f, line, rest, p, hat, hd, rfl⟩
  · have hroom := hat.packed.full_iff.mpr hfull
    exact hat.fails (Allocation.unplaced_line_iff.mpr
      ⟨rfl, d, hd, rfl, lookup_addresses_eq_none_iff.mp hnew, hroom⟩)
  · have hroom := hat.tracks.packed.full_iff.mpr hfull
    exact hat.fails (openAtEnd?_ne_exhausted _) fun _ =>
      Pass.unplaced_line_iff.mpr ⟨d, hd, rfl, hnew, hroom⟩

/-- A name that is seen is reported as declared twice, also where the row is full. -/
theorem Reached.redeclared {scope : Scope} {d : Declaration}
    (h : Reached current constants files scope declared (some d))
    (hseen : scope.address? d.name ≠ none) :
    ∃ kind first, Fails (compile current { constants } files) (.duplicate kind d.name first) := by
  rcases h.declares with ⟨f, line, rest, a, hat, hd, rfl, rfl⟩ | ⟨f, line, rest, p, hat, hd, rfl⟩
  · obtain ⟨first, hfirst⟩ :=
      Option.ne_none_iff_exists'.mp (mt lookup_addresses_eq_none_iff.mpr hseen)
    exact ⟨_, _, hat.fails (Allocation.fails_line_of_seen hd hfirst)⟩
  · obtain ⟨first, hfirst⟩ :=
      Option.ne_none_iff_exists'.mp (mt lookup_addresses_eq_none_iff.mpr hseen)
    exact ⟨_, _, hat.fails (openAtEnd?_ne_duplicate _ _ _) fun _ =>
      Pass.fails_line_of_seen hd hfirst⟩

end

/-- At every point of a compilation each variable declared so far has a byte of its own, and the
names that are seen stand for different bytes. Page zero runs out just where a name that is new is
declared behind 191 variables; a name that is seen is reported as declared twice. -/
theorem compile_places_apart (current : List String) (constants : NameTable Number)
    (files : List SourceFile) :
    (∀ scope declared next, Reached current constants files scope declared next →
      Apart declared ∧ declared.length ≤ 191 ∧ scope.Sees declared ∧ scope.Injective) ∧
    (∀ name, Fails (compile current { constants } files) (.zeroPageExhausted name) ↔
      ∃ scope declared d, Reached current constants files scope declared (some d) ∧
        d.name = name ∧ scope.address? name = none ∧ declared.length = 191) ∧
    ∀ scope declared d, Reached current constants files scope declared (some d) →
      scope.address? d.name ≠ none →
        ∃ kind first, Fails (compile current { constants } files) (.duplicate kind d.name first) := by
  refine ⟨?_, fun name => ⟨exists_reached_of_unplaced, ?_⟩, ?_⟩
  · intro scope declared next h
    obtain ⟨⟨cursor, hpacked⟩, hsees⟩ := h.packed
    exact ⟨hpacked.apart, hpacked.length_le, hsees, hsees.injective hpacked.apart⟩
  · rintro ⟨scope, declared, d, h, rfl, hnew, hfull⟩
    exact h.unplaced hnew hfull
  · intro scope declared d h hseen
    exact h.redeclared hseen

def twiceSource : SourceFile := .ofText (.ofText "twice.c")
  "unsigned char x;
void Update() \x7b
  unsigned char i = x;
\x7d
void Draw() \x7b
  unsigned char i = 2;
  x = i;
\x7d"

theorem twice_placed_apart : ∃ (scope : Scope) (declared : List Variable),
    Reached [] [] [twiceSource] scope declared none ∧
      declared.map (fun v => (v.name, v.address)) = [("x", 0x40), ("i", 0x41), ("i", 0x42)] ∧
      scope.addresses = [("x", 0x40), ("i", 0x42)] ∧ Apart declared ∧ scope.Injective := by
  have hrun : ((([twiceSource].foldlM (Allocation.addFile []) {}).toOption.bind fun a =>
      (Pass.addInit { constants := [], allocation := a }).toOption.bind fun start =>
        (canonical [] twiceSource.path).toOption.bind fun path =>
          (((sourceLines twiceSource.text).take 6).foldlM (Pass.track twiceSource path)
            (start, a.globals)).toOption.map fun s =>
              (s.2.map (fun v => (v.name, v.address)), s.1.scope.addresses,
                ((sourceLines twiceSource.text).drop 6).head?.bind s.1.localAt?))) =
      some ([("x", 0x40), ("i", 0x41), ("i", 0x42)], [("x", 0x40), ("i", 0x42)], none) := by
    decide +kernel
  obtain ⟨a, ha, hrun⟩ := Option.bind_eq_some_iff.mp hrun
  obtain ⟨start, hstart, hrun⟩ := Option.bind_eq_some_iff.mp hrun
  obtain ⟨path, hpath, hrun⟩ := Option.bind_eq_some_iff.mp hrun
  obtain ⟨⟨p, vs⟩, hs, hrun⟩ := Option.map_eq_some_iff.mp hrun
  simp only [Prod.mk.injEq] at hrun
  obtain ⟨hdeclared, hseen, hnext⟩ := hrun
  have hcompiling : Compiling [] [] [twiceSource] twiceSource
      ((sourceLines twiceSource.text).drop 6) (p, vs) :=
    .intro (List.nil_append _).symm (List.take_append_drop 6 _).symm (eq_ok_of_toOption ha)
      (eq_ok_of_toOption hstart) rfl (eq_ok_of_toOption hpath) (eq_ok_of_toOption hs)
  have hreached : Reached [] [] [twiceSource] p.scope vs none := .compiling hcompiling hnext.symm
  obtain ⟨hapart, -, -, hinjective⟩ := (compile_places_apart [] [] [twiceSource]).1 _ _ _ hreached
  exact ⟨p.scope, vs, hreached, hdeclared, hseen, hapart, hinjective⟩

/-- A file of 192 declarations, the last one of the name of the first. -/
def crowdedNames : List (List Char) := (List.range 191).map fun k => List.replicate (k + 1) 'v'

def crowdedSource : SourceFile :=
  .ofText (.ofText "main.c") (declarations (crowdedNames ++ [['v']]))

theorem crowdedNames_isIdentifier {name : List Char} (h : name ∈ crowdedNames ++ [['v']]) :
    isIdentifier name = true := by
  have hletters (k : Nat) : isIdentifier (List.replicate (k + 1) 'v') = true := by
    rw [List.replicate_succ, isIdentifier, List.all_replicate]
    simp [isIdentifierStart, isIdentifierPart]
  simp only [crowdedNames, List.mem_append, List.mem_map, List.mem_singleton] at h
  rcases h with ⟨k, -, rfl⟩ | rfl
  · exact hletters k
  · exact hletters 0

theorem crowdedNames_nodup : (crowdedNames.map String.ofList).Nodup := by
  rw [crowdedNames, List.map_map]
  refine List.Nodup.map ?_ List.nodup_range
  intro j k hjk
  have hlength := congrArg List.length (String.ofList_injective hjk)
  simpa using hlength

/-- A 192nd declaration is reached. Its name is reported as declared twice, and page zero does not
run out. -/
theorem crowded_redeclared : ∃ (scope : Scope) (declared : List Variable),
    Reached [] [] [crowdedSource] scope declared (some ⟨"v", none⟩) ∧ declared.length = 191 ∧
      (∃ kind first, Fails (compile [] { constants := [] } [crowdedSource])
        (.duplicate kind "v" first)) ∧
      ∀ name, ¬Fails (compile [] { constants := [] } [crowdedSource]) (.zeroPageExhausted name) := by
  have hdeclares : (sourceLines crowdedSource.text).map (fun l => globalAt? l.text) =
      (crowdedNames ++ [['v']]).map fun name => some ⟨String.ofList name, none⟩ :=
    globalAt?_sourceLines_declarations fun _ hname => crowdedNames_isIdentifier hname
  rw [List.map_append] at hdeclares
  obtain ⟨before, last, hlines, hbefore, hlast⟩ := List.map_eq_append_iff.mp hdeclares
  obtain ⟨line, rfl, hline⟩ := List.map_eq_singleton_iff.mp hlast
  have hbefore : before.map (fun l => globalAt? l.text) =
      (crowdedNames.map String.ofList).map fun name => some ⟨name, none⟩ := by
    rw [hbefore, List.map_map]
    rfl
  have hcount : (crowdedNames.map String.ofList).length = 191 := by simp [crowdedNames]
  have hroom : ({} : Allocation).next + (crowdedNames.map String.ofList).length ≤ zeroPageLimit := by
    rw [hcount]
    decide
  obtain ⟨a, ha, hnames⟩ := Allocation.exists_foldlM_line (a := {}) hbefore crowdedNames_nodup hroom
  have hreached : Reached [] [] [crowdedSource] _ a.globals (some ⟨"v", none⟩) :=
    .placing (.intro (List.nil_append _).symm hlines rfl ha) hline.symm
  have hseen : Scope.address? (Pass.globalScope { constants := [], allocation := a }) "v" ≠ none := by
    intro hnone
    have hmiss := List.find?_eq_none.mp (lookup_addresses_eq_none_iff.mp hnone)
    have hmem : "v" ∈ a.globals.map Variable.name := by
      rw [hnames]
      exact List.mem_map.mpr ⟨['v'], List.mem_map.mpr ⟨0, by simp, rfl⟩, rfl⟩
    obtain ⟨v, hv, hname⟩ := List.mem_map.mp hmem
    exact hmiss v hv (by simpa using hname)
  obtain ⟨kind, first, hfails⟩ := hreached.redeclared hseen
  refine ⟨_, _, hreached, ?_, ⟨kind, first, hfails⟩, ?_⟩
  · rw [← hcount, ← List.length_map (f := Variable.name), hnames]
    rfl
  · intro name hexhausted
    exact absurd (hfails.unique hexhausted) (by simp)

end Toolchain6502.C
