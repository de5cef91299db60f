import Toolchain6502.Proofs.Files.Changes

namespace Toolchain6502.Files

/-- A name that is one component of a path as it stands. -/
def IsPlain (name : String) : Prop :=
  Path.ofText name = ⟨.relative, [name]⟩ ∧ name ≠ ".." ∧ Tree.isTooLong name = false

instance (name : String) : Decidable (IsPlain name) :=
  inferInstanceAs (Decidable (_ ∧ _ ∧ _))

theorem Path.child_eq {name : String} (h : IsPlain name) (p : Path) :
    p.child name = { p with parts := p.parts ++ [name] } := by
  rw [child, join, h.1]
  rfl

theorem Path.toText_child {name : String} (h : IsPlain name) {p : Path} (hp : p.parts ≠ []) :
    (p.child name).toText = p.toText ++ "/" ++ name := by
  rw [child_eq h, toText, toText]
  simp [hp, String.intercalate_append_of_ne_nil hp (List.cons_ne_nil name []), String.append_assoc]

namespace Tree

variable {t t' t'' : Tree} {p : Path} {name : String} {here place : List String}

def start (t : Tree) (p : Path) : List String := if p.isAbsolute then [] else t.current

structure Leads (t : Tree) (p : Path) (here : List String) : Prop where
  walk : t.walk (t.start p) p.parts = .ok here
  directory : t.node? here = some .directory

theorem place_eq (t : Tree) (p : Path) :
    t.place p = if p.toText.utf8ByteSize > 4095 then .error .nameTooLong
      else t.walk (t.start p) p.parts := rfl

theorem walk_of_place (h : t.place p = .ok place) : t.walk (t.start p) p.parts = .ok place := by
  rw [place_eq] at h
  split at h
  · simp at h
  · exact h

theorem walk_append (t : Tree) (here xs ys : List String) :
    t.walk here (xs ++ ys) = t.walk here xs >>= fun mid => t.walk mid ys := by
  induction xs generalizing here with
  | nil => rfl
  | cons x xs ih =>
    rw [List.cons_append, walk, walk]
    split
    · rfl
    · rfl
    · split
      · exact ih _
      · split
        · rfl
        · exact ih _

theorem walk_name (hname : IsPlain name) :
    t.walk here [name] = .ok place ↔ t.node? here = some .directory ∧ place = here ++ [name] := by
  rw [walk]
  split
  · next hnode => simp [hnode]
  · next hnode => simp [hnode]
  · next hnode =>
    rw [if_neg hname.2.1, if_neg (by simp [hname.2.2]), walk]
    simp [hnode, eq_comm]

theorem walk_cons_eq_ok {x : String} {xs : List String} (h : t.walk here (x :: xs) = .ok place) :
    t.node? here = some .directory := by
  rw [walk] at h
  split at h
  · simp at h
  · simp at h
  · assumption

/-- The last component of a path is that of its place. -/
theorem getLast?_of_walk {xs : List String} (hname : name ≠ "..")
    (h : t.walk here (xs ++ [name]) = .ok place) : place.getLast? = some name := by
  rw [walk_append] at h
  obtain ⟨mid, -, h⟩ := bind_eq_ok.mp h
  rw [walk] at h
  split at h
  · simp at h
  · simp at h
  · rw [if_neg hname] at h
    split at h
    · simp at h
    · rw [← Except.ok.inj h, List.getLast?_concat]

theorem leads_of_isDirectory (h : t.isDirectory p = true) :
    ∃ here, t.place p = .ok here ∧ t.Leads p here := by
  unfold isDirectory at h
  split at h
  case h_2 => simp at h
  case h_1 hstat =>
  obtain ⟨here, hplace, hnode⟩ := bind_eq_ok.mp hstat
  refine ⟨here, hplace, walk_of_place hplace, ?_⟩
  split at hnode
  · rename_i node hfound
    rw [hfound, Except.ok.inj hnode]
  · simp at hnode

/-- A path below a directory leads through it. -/
theorem exists_leads_of_walk (hname : IsPlain name)
    (h : t.walk (t.start (p.child name)) (p.child name).parts = .ok place) :
    ∃ here, t.Leads p here ∧ place = here ++ [name] := by
  rw [Path.child_eq hname, walk_append] at h
  obtain ⟨here, hhere, hlast⟩ := bind_eq_ok.mp h
  obtain ⟨hnode, rfl⟩ := (walk_name hname).mp hlast
  exact ⟨here, ⟨hhere, hnode⟩, rfl⟩

theorem exists_leads_of_child (hname : IsPlain name) (h : t.place (p.child name) = .ok place) :
    ∃ here, t.Leads p here ∧ place = here ++ [name] :=
  exists_leads_of_walk hname (walk_of_place h)

theorem exists_leads_of_holds (hname : IsPlain name) (h : t.holds (p.child name) = true) :
    ∃ here, t.Leads p here := by
  obtain ⟨-, node, hstat⟩ := holds_eq_true.mp h
  obtain ⟨place, hplace, -⟩ := bind_eq_ok.mp hstat
  obtain ⟨here, hhere, -⟩ := exists_leads_of_child hname hplace
  exact ⟨here, hhere⟩

theorem Leads.place_child (h : t.Leads p here) (hname : IsPlain name) :
    t.place (p.child name) = if (p.child name).toText.utf8ByteSize > 4095 then .error .nameTooLong
      else .ok (here ++ [name]) := by
  have hwalk : t.walk (t.start (p.child name)) (p.child name).parts = .ok (here ++ [name]) := by
    rw [Path.child_eq hname, walk_append]
    exact bind_eq_ok.mpr ⟨here, h.walk, (walk_name hname).mpr ⟨h.directory, rfl⟩⟩
  rw [place_eq, hwalk]

/-- On the way to a directory there are only directories. -/
theorem Leads.node?_of_take (h : t.Leads p here) (k : Nat)
    (hwalk : t.walk (t.start p) (p.parts.take k) = .ok place) :
    t.node? place = some .directory := by
  have hrest := h.walk
  rw [← List.take_append_drop k p.parts, walk_append, hwalk, ok_bind] at hrest
  cases hdrop : p.parts.drop k with
  | nil =>
    rw [hdrop] at hrest
    obtain rfl := Except.ok.inj hrest
    exact h.directory
  | cons x xs =>
    rw [hdrop] at hrest
    exact walk_cons_eq_ok hrest

/-- The text of a path that leads to a directory is all that can keep it from its place. -/
theorem Leads.place_eq (h : t.Leads p here) :
    t.place p = if p.toText.utf8ByteSize > 4095 then .error .nameTooLong else .ok here := by
  rw [Tree.place_eq, h.walk]

theorem KeepsDirectories.leads (h : t.KeepsDirectories t') (hp : t.Leads p here) :
    t'.Leads p here := by
  refine ⟨?_, h.directories here hp.directory⟩
  have hstart : t'.start p = t.start p := by rw [start, h.current, start]
  rw [hstart]
  exact h.walk hp.walk

theorem holds_of_child (hname : IsPlain name) (hp : p.parts ≠ [])
    (hnull : (p.child name).hasNull = false) (h : t.place (p.child name) = .ok place) :
    t.holds p = true := by
  obtain ⟨here, hhere, rfl⟩ := exists_leads_of_child hname h
  have hsize : ¬p.toText.utf8ByteSize > 4095 := by
    intro hlong
    rw [place_eq, if_pos] at h
    · simp at h
    · rw [Path.toText_child hname hp, String.utf8ByteSize_append, String.utf8ByteSize_append]
      omega
  rw [Path.child_eq hname, Path.hasNull_eq_false] at hnull
  refine holds_eq_true.mpr ⟨Path.hasNull_eq_false.mpr fun part hpart => hnull part ?_, .directory, ?_⟩
  · exact List.mem_append_left _ hpart
  rw [stat, place_eq, if_neg hsize, hhere.walk, ok_bind, hhere.directory]
  rfl

/-- In a directory that is there, a look at a path can only fail for the length of its text. -/
theorem Leads.finds_child (h : t'.Leads p here) (hname : IsPlain name) {found : Bool}
    (hfinds : t.finds (p.child name) = .ok found) :
    t'.finds (p.child name) = .ok (t'.holds (p.child name)) := by
  refine finds_eq_ok.mpr ⟨rfl, fun hnull hlong => ?_⟩
  have hshort := (finds_eq_ok.mp hfinds).2 hnull
  rw [stat, h.place_child hname] at hlong
  split at hlong
  · next hsize => exact hshort (by rw [stat, Tree.place_eq, if_pos hsize]; rfl)
  · rw [ok_bind] at hlong
    split at hlong <;> simp at hlong

theorem ne_nil_of_node? (h : t.node? place ≠ some .directory) : place ≠ [] := by
  rintro rfl
  exact h rfl

/-- A directory is made at a free place, or it is there. -/
theorem put_or_isDirectory_of_ensureDirectory (h : t.ensureDirectory p = (.ok (), t')) :
    (∃ place, t.place p = .ok place ∧ t.node? place = none ∧ t' = t.put place .directory) ∨
      t.isDirectory p = true ∧ t' = t := by
  unfold ensureDirectory at h
  split at h
  · next made hmade =>
    obtain ⟨-, rfl⟩ := Prod.mk.inj h
    obtain ⟨place, hplace, hmade⟩ := bind_eq_ok.mp hmade
    split at hmade
    · simp at hmade
    · next hnew => exact .inl ⟨place, hplace, hnew, (Except.ok.inj hmade).symm⟩
  · obtain ⟨hresult, rfl⟩ := Prod.mk.inj h
    split at hresult
    · next hthere => exact .inr ⟨hthere, rfl⟩
    · simp at hresult

/-- The last directory of a path is made after those above it, or alone. -/
theorem exists_of_ensureParents {count : Nat} (h : t.ensureParents p (count + 1) = (.ok (), t')) :
    let q : Path := { p with parts := p.parts.take (count + 1) }
    t.ensureDirectory q = (.ok (), t') ∨
      ∃ made, t.ensureParents p count = (.ok (), made) ∧ made.ensureDirectory q = (.ok (), t') := by
  rw [ensureParents] at h
  split at h
  · split at h
    · next made hmade => exact .inr ⟨made, hmade, h⟩
    · simp at h
  · exact .inl h

/-- A tree to which nodes were added, and in which files got new content, at changed places only. -/
structure Grows (changed : List String → Bool) (t t' : Tree) : Prop
    extends KeepsDirectories t t' where
  present : ∀ place, (t.node? place).isSome = true → (t'.node? place).isSome = true
  length : t.entries.length ≤ t'.entries.length
  entries : t'.entries.filter (fun e => !changed e.1) = t.entries.filter (fun e => !changed e.1)

theorem lookup_unchanged {changed : List String → Bool} (entries : List (List String × Node))
    (h : changed place = false) :
    (entries.filter fun e => !changed e.1).lookup place = entries.lookup place := by
  induction entries with
  | nil => rfl
  | cons e rest ih =>
    obtain ⟨first, node⟩ := e
    by_cases hfirst : place = first
    · subst hfirst
      simp [h]
    · cases hchanged : changed first <;>
        simp [List.lookup_cons, hchanged, beq_false_of_ne hfirst, ih]

namespace Grows

variable {changed changed' : List String → Bool}

theorem refl (changed : List String → Bool) (t : Tree) : t.Grows changed t :=
  ⟨.refl t, fun _ h => h, Nat.le_refl _, rfl⟩

theorem trans (h : t.Grows changed t') (h' : t'.Grows changed t'') : t.Grows changed t'' where
  toKeepsDirectories := h.toKeepsDirectories.trans h'.toKeepsDirectories
  present place hplace := h'.present place (h.present place hplace)
  length := Nat.le_trans h.length h'.length
  entries := h'.entries.trans h.entries

theorem mono (h : t.Grows changed t') (hle : ∀ place, changed place = true → changed' place = true) :
    t.Grows changed' t' := by
  refine ⟨h.toKeepsDirectories, h.present, h.length, ?_⟩
  have hnarrow (l : List (List String × Node)) : l.filter (fun e => !changed' e.1) =
      (l.filter fun e => !changed e.1).filter fun e => !changed' e.1 := by
    rw [List.filter_filter]
    refine List.filter_congr fun e _ => ?_
    cases hc : changed e.1 with
    | false => simp
    | true => simp [hle e.1 hc]
  rw [hnarrow, h.entries, ← hnarrow]

theorem node? (h : t.Grows changed t') (hplace : changed place = false) :
    t'.node? place = t.node? place := by
  unfold Tree.node?
  split
  · rfl
  · rw [← lookup_unchanged t'.entries hplace, h.entries, lookup_unchanged _ hplace]

theorem holds (h : t.Grows changed t') (hp : t.holds p = true) : t'.holds p = true := by
  obtain ⟨hnull, node, hstat⟩ := holds_eq_true.mp hp
  obtain ⟨place, hplace, hfound⟩ := bind_eq_ok.mp hstat
  have hnode : (t.node? place).isSome = true := by
    cases hnode : t.node? place with
    | some node => rfl
    | none => simp [hnode] at hfound
  obtain ⟨node', hnode'⟩ := Option.isSome_iff_exists.mp (h.present place hnode)
  refine holds_eq_true.mpr ⟨hnull, node', ?_⟩
  rw [stat, h.place hplace, ok_bind, hnode']
  rfl

/-- What stands in a directory under a name that was not used is the same as before. -/
theorem stat_child (h : t.Grows changed t') (hp : t.Leads p here) (hname : IsPlain name)
    (hplace : changed (here ++ [name]) = false) : t'.stat (p.child name) = t.stat (p.child name) := by
  have hp' := h.leads hp
  rw [stat, stat, hp.place_child hname, hp'.place_child hname]
  split
  · rfl
  · rw [ok_bind, ok_bind, h.node? hplace]

end Grows

section
variable {changed : List String → Bool}

theorem grows_put (hplace : changed place = true) {node : Node}
    (hnode : t.node? place ≠ some .directory) : t.Grows changed (t.put place node) := by
  refine ⟨keepsDirectories_put hnode node, ?_, ?_, ?_⟩
  · intro q hq
    rw [node?_put (ne_nil_of_node? hnode)]
    split
    · rfl
    · exact hq
  · unfold put
    split <;> simp
  · unfold put
    split
    · induction t.entries with
      | nil => rfl
      | cons e rest ih =>
        by_cases he : e.1 = place
        · simp [he, hplace, ih]
        · simp [List.filter_cons, he, ih]
    · simp [hplace]

theorem grows_write {bytes : List UInt8} (h : t.write p bytes = (.ok (), t'))
    (hchanged : ∀ place, t.place p = .ok place → changed place = true) : t.Grows changed t' := by
  obtain ⟨place, hplace, hfile, -, rfl⟩ := exists_put_of_write h
  exact grows_put (hchanged place hplace) hfile

theorem grows_ensureDirectory (h : t.ensureDirectory p = (.ok (), t'))
    (hchanged : ∀ place, t.place p = .ok place → t.node? place = none → changed place = true) :
    t.Grows changed t' := by
  obtain ⟨place, hplace, hnew, rfl⟩ | ⟨-, rfl⟩ := put_or_isDirectory_of_ensureDirectory h
  · exact grows_put (hchanged place hplace hnew) (by simp [hnew])
  · exact .refl changed t'

/-- Directories are made only where one on the way is missing. -/
theorem grows_ensureParents {count : Nat} (h : t.ensureParents p count = (.ok (), t'))
    (hchanged : ∀ k ≤ count, ∀ (t₁ : Tree) place, t.KeepsDirectories t₁ →
      t₁.place { p with parts := p.parts.take k } = .ok place → t₁.node? place = none →
      changed place = true) : t.Grows changed t' := by
  induction count generalizing t' with
  | zero =>
    refine grows_ensureDirectory h fun place hplace hnew =>
      hchanged 0 (Nat.le_refl _) t place (.refl t) (by simpa using hplace) hnew
  | succ count ih =>
    obtain h | ⟨made, hmade, h⟩ := exists_of_ensureParents h
    · exact grows_ensureDirectory h fun place =>
        hchanged (count + 1) (Nat.le_refl _) t place (.refl t)
    · have hbefore := ih hmade fun k hk => hchanged k (Nat.le_succ_of_le hk)
      exact hbefore.trans (grows_ensureDirectory h fun place =>
        hchanged (count + 1) (Nat.le_refl _) made place hbefore.toKeepsDirectories)

end

/-- The last component of a place is one of some names. -/
def endsIn (names place : List String) : Bool := place.getLast?.any names.contains

@[simp] theorem endsIn_concat (names : List String) (here : List String) (name : String) :
    endsIn names (here ++ [name]) = names.contains name := by
  simp [endsIn]

theorem endsIn_of_getLast? {names : List String} (h : place.getLast? = some name)
    (hname : name ∈ names) : endsIn names place = true := by
  simp [endsIn, h, hname]

theorem endsIn_mono {names names' : List String} (hsubset : names ⊆ names')
    (h : endsIn names place = true) : endsIn names' place = true := by
  simp only [endsIn, Option.any_eq_true, List.contains_eq_mem, decide_eq_true_eq] at h ⊢
  obtain ⟨name, hlast, hname⟩ := h
  exact ⟨name, hlast, hsubset hname⟩

theorem Grows.weaken {names names' : List String} (h : t.Grows (endsIn names) t')
    (hsubset : names ⊆ names') : t.Grows (endsIn names') t' :=
  h.mono fun _ => endsIn_mono hsubset

theorem grows_write_child {bytes : List UInt8} (hname : IsPlain name)
    (h : t.write (p.child name) bytes = (.ok (), t')) : t.Grows (endsIn [name]) t' := by
  refine grows_write h fun place hplace => ?_
  obtain ⟨here, -, rfl⟩ := exists_leads_of_child hname hplace
  simp

/-- Below a directory that is there only the components after it are made. -/
theorem grows_ensureDirectories {names : List String} (hp : t.Leads p here)
    (hnames : ∀ name ∈ names, name ≠ "..")
    (h : t.ensureDirectories { p with parts := p.parts ++ names } = (.ok (), t')) :
    t.Grows (endsIn names) t' := by
  refine grows_ensureParents h fun k hk t₁ place hkeeps hplace hnew => ?_
  have hwalk := walk_of_place hplace
  rcases Nat.lt_or_ge p.parts.length k with hlt | hle
  · -- this front of the path ends in one of the names
    have htake : (p.parts ++ names).take k = p.parts ++ names.take (k - p.parts.length) := by
      rw [List.take_append, List.take_of_length_le (Nat.le_of_lt hlt)]
    have hne : names.take (k - p.parts.length) ≠ [] := by
      rw [List.length_append] at hk
      intro hnil
      have := congrArg List.length hnil
      rw [List.length_take, List.length_nil] at this
      omega
    obtain ⟨before, name, hbefore⟩ := (List.eq_nil_or_concat' _).resolve_left hne
    have hname : name ∈ names := by
      apply List.mem_of_mem_take
      rw [hbefore]
      exact List.mem_append_right _ (List.mem_singleton_self name)
    simp only [htake, hbefore, ← List.append_assoc] at hwalk
    exact endsIn_of_getLast? (getLast?_of_walk (hnames name hname) hwalk) hname
  · -- this one leads to the directory or to one above it
    simp only [List.take_append_of_le_length hle] at hwalk
    have hthere := (hkeeps.leads hp).node?_of_take k hwalk
    simp [hthere] at hnew

/-- The path leads to a file that holds the bytes and has room for them, and no entry of its place
says otherwise. -/
def Settled (t : Tree) (p : Path) (bytes : List UInt8) : Prop :=
  ∃ place, t.place p = .ok place ∧ t.node? place = some (.file bytes) ∧
    t.fits place bytes = true ∧ ∀ e ∈ t.entries, e.1 = place → e.2 = .file bytes

section
variable {bytes : List UInt8}

theorem KeepsDirectories.fits (h : t.KeepsDirectories t') (place : List String)
    (bytes : List UInt8) : t'.fits place bytes = t.fits place bytes := by
  rw [Tree.fits, h.room, Tree.fits]

theorem settled_write (h : t.write p bytes = (.ok (), t')) : t'.Settled p bytes := by
  obtain ⟨place, hplace, hfile, hfits, rfl⟩ := exists_put_of_write h
  have hne := ne_nil_of_node? hfile
  have hkeeps := keepsDirectories_put hfile (.file bytes)
  refine ⟨place, hkeeps.place hplace, by rw [node?_put hne, if_pos rfl],
    (hkeeps.fits place bytes).trans hfits, ?_⟩
  intro e he hsame
  unfold put at he
  split at he
  · obtain ⟨e', -, rfl⟩ := List.mem_map.mp he
    by_cases he' : e'.1 = place
    · rw [if_pos he']
    · rw [if_neg he'] at hsame
      exact absurd hsame he'
  · rename_i hnew
    rcases List.mem_append.mp he with he | he
    · have hnone : t.entries.lookup place = none := by
        have hnode : t.node? place = t.entries.lookup place := by simp [node?, hne]
        rwa [← hnode, ← Option.not_isSome_iff_eq_none]
      simpa [hsame] using List.lookup_eq_none_iff.mp hnone e he
    · obtain rfl := List.mem_singleton.mp he
      rfl

theorem Settled.write (h : t.Settled p bytes) : t.write p bytes = (.ok (), t) := by
  obtain ⟨place, hplace, hnode, hfits, hentries⟩ := h
  have hput : t.put place (.file bytes) = t := by
    have hsame : t.entries.map (fun e => if e.1 = place then (place, .file bytes) else e) =
        t.entries := by
      conv_rhs => rw [← List.map_id t.entries]
      refine List.map_congr_left fun e he => ?_
      split
      · next hplace => exact Prod.ext hplace.symm (hentries e he hplace).symm
      · rfl
    simp [put, hnode, hsame]
  simp [Tree.write, hplace, hnode, hfits, taken_of_fits hfits, hput]

theorem Settled.grows {changed : List String → Bool} (h : t.Settled p bytes)
    (hgrows : t.Grows changed t')
    (hchanged : ∀ place, t.place p = .ok place → changed place = false) : t'.Settled p bytes := by
  obtain ⟨place, hplace, hnode, hfits, hentries⟩ := h
  have hunchanged := hchanged place hplace
  refine ⟨place, hgrows.place hplace, (hgrows.node? hunchanged).trans hnode,
    (hgrows.fits place bytes).trans hfits, ?_⟩
  intro e he hsame
  have hmem : e ∈ t'.entries.filter fun e => !changed e.1 :=
    List.mem_filter.mpr ⟨he, by simp [hsame, hunchanged]⟩
  rw [hgrows.entries] at hmem
  exact hentries e (List.mem_filter.mp hmem).1 hsame

theorem Settled.grows_child {names : List String} (hname : IsPlain name)
    (h : t.Settled (p.child name) bytes) (hgrows : t.Grows (endsIn names) t')
    (hnot : name ∉ names) : t'.Settled (p.child name) bytes := by
  refine h.grows hgrows fun place hplace => ?_
  obtain ⟨here, -, rfl⟩ := exists_leads_of_child hname hplace
  simp [hnot]

end

theorem isDirectory_of_node (hplace : t.place p = .ok place)
    (hnode : t.node? place = some .directory) : t.isDirectory p = true := by
  simp [isDirectory, stat, hplace, hnode]

theorem KeepsDirectories.isDirectory (h : t.KeepsDirectories t') (hp : t.isDirectory p = true) :
    t'.isDirectory p = true := by
  obtain ⟨here, hplace, hhere⟩ := leads_of_isDirectory hp
  exact isDirectory_of_node (h.place hplace) (h.directories here hhere.directory)

theorem isDirectory_of_ensureDirectory (h : t.ensureDirectory p = (.ok (), t')) :
    t'.isDirectory p = true := by
  obtain ⟨place, hplace, hnew, rfl⟩ | ⟨hthere, rfl⟩ := put_or_isDirectory_of_ensureDirectory h
  · have hfree : t.node? place ≠ some .directory := by simp [hnew]
    exact isDirectory_of_node ((keepsDirectories_put hfree _).place hplace)
      (by rw [node?_put (ne_nil_of_node? hfree), if_pos rfl])
  · exact hthere

theorem isDirectory_of_ensureParents {count : Nat} (h : t.ensureParents p count = (.ok (), t')) :
    t'.isDirectory { p with parts := p.parts.take count } = true := by
  cases count with
  | zero => simpa using isDirectory_of_ensureDirectory h
  | succ count =>
    obtain h | ⟨made, -, h⟩ := exists_of_ensureParents h
    · exact isDirectory_of_ensureDirectory h
    · exact isDirectory_of_ensureDirectory h

theorem isDirectory_of_ensureDirectories (h : t.ensureDirectories p = (.ok (), t')) :
    t'.isDirectory p = true := by
  simpa using isDirectory_of_ensureParents h

theorem ensureDirectories_of_isDirectory (h : t.isDirectory p = true) :
    t.ensureDirectories p = (.ok (), t) := by
  obtain ⟨here, hplace, hhere⟩ := leads_of_isDirectory h
  have hmake : t.makeDirectory p = .error .alreadyExists := by
    simp [makeDirectory, hplace, hhere.directory]
  have hensure : t.ensureDirectory p = (.ok (), t) := by
    rw [ensureDirectory, hmake]
    simp only [h, if_true]
  unfold ensureDirectories
  cases hparts : p.parts with
  | nil =>
    have hp : ({ p with parts := [] } : Path) = p := by rw [← hparts]
    rwa [List.length_nil, ensureParents, hp]
  | cons part rest =>
    have hp : ({ p with parts := p.parts.take (rest.length + 1) } : Path) = p := by
      rw [List.take_of_length_le (by simp [hparts])]
    rw [List.length_cons, ensureParents]
    simp only [hp, hmake]
    exact hensure

end Tree

end Toolchain6502.Files
