import Toolchain6502.Proofs.Files.Places

namespace Toolchain6502.Files.Tree

def file? (t : Tree) (place : List String) : Option (List UInt8) :=
  match t.node? place with
  | some (.file bytes) => some bytes
  | _ => none

theorem file?_eq_some {t : Tree} {place : List String} {bytes : List UInt8} :
    t.file? place = some bytes ↔ t.node? place = some (.file bytes) := by
  unfold file?
  split
  · next found hfound => simp [hfound]
  · next hnone => simpa using hnone bytes

def holds (t : Tree) (p : Path) : Bool := !p.hasNull && (t.stat p).isOk

theorem holds_eq_true {t : Tree} {p : Path} :
    t.holds p = true ↔ p.hasNull = false ∧ ∃ node, t.stat p = .ok node := by
  unfold holds
  cases t.stat p <;> simp [Except.isOk, Except.toBool]

theorem finds_eq_ok {t : Tree} {p : Path} {found : Bool} :
    t.finds p = .ok found ↔
      t.holds p = found ∧ (p.hasNull = false → t.stat p ≠ .error .nameTooLong) := by
  unfold finds holds
  split
  · next hnull => simp [hnull]
  · next hnull =>
    split <;> simp_all [Except.isOk, Except.toBool]

/-- Every directory is there still, and the current one is the same. -/
structure KeepsDirectories (t t' : Tree) : Prop where
  current : t'.current = t.current
  room : t'.room = t.room
  directories : ∀ place, t.node? place = some .directory → t'.node? place = some .directory

/-- All files are the same before and after, except those that some paths lead to. -/
structure KeepsFiles (paths : List Path) (t t' : Tree) : Prop extends KeepsDirectories t t' where
  files : ∀ place, (∀ p ∈ paths, t'.place p ≠ .ok place) → t'.file? place = t.file? place

variable {t t' t'' : Tree} {p : Path}

theorem lookup_replace (entries : List (List String × Node)) (place : List String) (node : Node)
    (q : List String) :
    (entries.map fun e => if e.1 = place then (place, node) else e).lookup q =
      if q = place then (entries.lookup q).map fun _ => node else entries.lookup q := by
  induction entries with
  | nil => simp
  | cons e rest ih =>
    obtain ⟨first, old⟩ := e
    by_cases hfirst : first = place <;> by_cases hq : q = first <;>
      simp_all [List.lookup_cons, beq_false_of_ne]

theorem node?_put {place : List String} (hplace : place ≠ []) (node : Node) (q : List String) :
    (t.put place node).node? q = if q = place then some node else t.node? q := by
  by_cases hq : q = []
  · rw [if_neg (hq ▸ Ne.symm hplace), hq]
    rfl
  have hlookup (t : Tree) {place : List String} (h : place ≠ []) :
      t.node? place = t.entries.lookup place := by
    simp [node?, h]
  rw [hlookup _ hq, hlookup _ hq, put, hlookup _ hplace]
  split
  · rename_i hthere
    rw [lookup_replace]
    split
    · rename_i hsame
      obtain ⟨old, hold⟩ := Option.isSome_iff_exists.mp (hsame ▸ hthere)
      rw [hold, Option.map_some]
    · rfl
  · rename_i hnew
    rw [List.lookup_append]
    by_cases hsame : q = place
    · subst hsame
      rw [Option.not_isSome_iff_eq_none.mp hnew, if_pos rfl, List.lookup_cons, beq_self_eq_true]
      rfl
    · rw [List.lookup_cons, beq_false_of_ne hsame, if_neg hsame]
      exact Option.or_none

theorem KeepsDirectories.walk (h : t.KeepsDirectories t') {here parts place : List String}
    (hwalk : t.walk here parts = .ok place) : t'.walk here parts = .ok place := by
  induction parts generalizing here with
  | nil => exact hwalk
  | cons part rest ih =>
    rw [Tree.walk] at hwalk ⊢
    split at hwalk
    · simp at hwalk
    · simp at hwalk
    · rename_i hhere
      simp only [h.directories here hhere]
      split at hwalk
      · rw [if_pos ‹_›]
        exact ih hwalk
      · split at hwalk
        · simp at hwalk
        · rw [if_neg ‹_›, if_neg ‹_›]
          exact ih hwalk

theorem KeepsDirectories.place (h : t.KeepsDirectories t') {place : List String}
    (hplace : t.place p = .ok place) : t'.place p = .ok place := by
  unfold Tree.place at hplace ⊢
  rw [h.current]
  split at hplace
  · simp at hplace
  · rw [if_neg ‹_›]
    exact h.walk hplace

theorem KeepsDirectories.refl (t : Tree) : t.KeepsDirectories t := ⟨rfl, rfl, fun _ h => h⟩

theorem KeepsDirectories.trans (h : t.KeepsDirectories t') (h' : t'.KeepsDirectories t'') :
    t.KeepsDirectories t'' where
  current := h'.current.trans h.current
  room := h'.room.trans h.room
  directories place hplace := h'.directories place (h.directories place hplace)

namespace KeepsFiles

variable {paths paths' : List Path}

theorem refl (paths : List Path) (t : Tree) : t.KeepsFiles paths t := ⟨.refl t, fun _ _ => rfl⟩

theorem trans (h : t.KeepsFiles paths t') (h' : t'.KeepsFiles paths t'') :
    t.KeepsFiles paths t'' where
  toKeepsDirectories := h.toKeepsDirectories.trans h'.toKeepsDirectories
  -- a path that leads to the place already in the middle leads there in the end too
  files place hother :=
    (h'.files place hother).trans (h.files place fun p hp hplace => hother p hp (h'.place hplace))

theorem mono (h : t.KeepsFiles paths t') (hpaths : paths ⊆ paths') : t.KeepsFiles paths' t' :=
  ⟨h.toKeepsDirectories, fun place hother => h.files place fun p hp => hother p (hpaths hp)⟩

end KeepsFiles

theorem keepsDirectories_put {place : List String} (h : t.node? place ≠ some .directory)
    (node : Node) : t.KeepsDirectories (t.put place node) := by
  have hplace : place ≠ [] := by
    rintro rfl
    exact h rfl
  refine ⟨?_, ?_, fun q hq => ?_⟩
  · unfold put
    split <;> rfl
  · unfold put
    split <;> rfl
  · rw [node?_put hplace, if_neg (by rintro rfl; exact h hq), hq]

theorem taken_of_fits {place : List String} {bytes : List UInt8} (h : t.fits place bytes = true) :
    t.taken place bytes = bytes := by
  unfold fits at h
  unfold taken
  cases hroom : t.room place with
  | none => rfl
  | some size => exact List.take_of_length_le (by simpa [hroom] using h)

theorem exists_room_of_not_fits {place : List String} {bytes : List UInt8}
    (h : t.fits place bytes = false) :
    ∃ size, t.room place = some size ∧ size < bytes.length ∧
      t.taken place bytes = bytes.take size := by
  unfold fits at h
  cases hroom : t.room place with
  | none => simp [hroom] at h
  | some size => exact ⟨size, rfl, by simpa [hroom] using h, by simp [taken, hroom]⟩

/-- A file that cannot be opened is not touched. One that can holds what it has taken, be that all
or not. -/
theorem write_cases (t : Tree) (p : Path) (bytes : List UInt8) :
    (∃ f, t.write p bytes = (.error f, t)) ∨
      ∃ place, t.place p = .ok place ∧ t.node? place ≠ some .directory ∧
        t.write p bytes = (if t.fits place bytes then .ok () else .error .noSpace,
          t.put place (.file (t.taken place bytes))) := by
  unfold write
  split
  · exact .inl ⟨_, rfl⟩
  · next place hplace =>
    split
    · exact .inl ⟨_, rfl⟩
    · next hfile => exact .inr ⟨place, hplace, hfile, rfl⟩

theorem keepsFiles_put {place : List String} (hplace : t.place p = .ok place)
    (hfile : t.node? place ≠ some .directory) (bytes : List UInt8) :
    t.KeepsFiles [p] (t.put place (.file bytes)) ∧
      (t.put place (.file bytes)).read p = .ok bytes := by
  have hkeeps := keepsDirectories_put hfile (.file bytes)
  have hnode (q : List String) :
      (t.put place (.file bytes)).node? q = if q = place then some (.file bytes) else t.node? q :=
    node?_put (by rintro rfl; exact hfile rfl) _ q
  have hplace := hkeeps.place hplace
  refine ⟨⟨hkeeps, fun q hq => ?_⟩, read_eq_ok.mpr ?_⟩
  · have hother : q ≠ place := by
      rintro rfl
      exact hq p (List.mem_singleton_self p) hplace
    rw [file?, hnode, if_neg hother, file?]
  · rw [stat, hplace, ok_bind, hnode, if_pos rfl]
    rfl

theorem keepsFiles_write (t : Tree) (p : Path) (bytes : List UInt8) :
    t.KeepsFiles [p] (t.write p bytes).2 := by
  obtain ⟨f, h⟩ | ⟨place, hplace, hfile, h⟩ := write_cases t p bytes
  · rw [h]
    exact .refl [p] t
  · rw [h]
    exact (keepsFiles_put hplace hfile _).1

theorem exists_put_of_write {bytes : List UInt8} (h : t.write p bytes = (.ok (), t')) :
    ∃ place, t.place p = .ok place ∧ t.node? place ≠ some .directory ∧
      t.fits place bytes = true ∧ t' = t.put place (.file bytes) := by
  obtain ⟨f, hw⟩ | ⟨place, hplace, hfile, hw⟩ := write_cases t p bytes
  · simp [hw] at h
  · rw [hw] at h
    obtain ⟨hresult, rfl⟩ := Prod.mk.inj h
    split at hresult
    · next hfits => exact ⟨place, hplace, hfile, hfits, by rw [taken_of_fits hfits]⟩
    · simp at hresult

theorem keepsFiles_makeDirectory (h : t.makeDirectory p = .ok t') : t.KeepsFiles [] t' := by
  obtain ⟨place, -, h⟩ := bind_eq_ok.mp h
  split at h
  · simp at h
  rename_i hnew
  obtain rfl := Except.ok.inj h
  refine ⟨keepsDirectories_put (by simp [hnew]) _, fun q _ => ?_⟩
  have hplace : place ≠ [] := by
    rintro rfl
    simp [node?] at hnew
  rw [file?, node?_put hplace, file?]
  by_cases hsame : q = place
  · rw [if_pos hsame, hsame, hnew]
  · rw [if_neg hsame]

theorem keepsFiles_ensureDirectory (t : Tree) (p : Path) :
    t.KeepsFiles [] (t.ensureDirectory p).2 := by
  unfold ensureDirectory
  split
  · next made hmade => exact keepsFiles_makeDirectory hmade
  · exact .refl [] t

theorem keepsFiles_of_write {bytes : List UInt8} {r : Except FileFault Unit}
    (h : t.write p bytes = (r, t')) : t.KeepsFiles [p] t' := by
  have hkeeps := keepsFiles_write t p bytes
  rwa [h] at hkeeps

/-- Directories are all that is made, also on the way to one that cannot be made. -/
theorem keepsFiles_ensureParents (t : Tree) (p : Path) (count : Nat) :
    t.KeepsFiles [] (t.ensureParents p count).2 := by
  induction count with
  | zero => exact keepsFiles_ensureDirectory t _
  | succ count ih =>
    rw [ensureParents]
    split
    · split
      · next made hmade =>
        rw [hmade] at ih
        exact ih.trans (keepsFiles_ensureDirectory made _)
      · next e made hmade =>
        rw [hmade] at ih
        exact ih
    · exact keepsFiles_ensureDirectory t _

theorem keepsFiles_of_ensureDirectories {r : Except FileFault Unit}
    (h : t.ensureDirectories p = (r, t')) : t.KeepsFiles [] t' := by
  have hkeeps := keepsFiles_ensureParents t p p.parts.length
  rwa [← ensureDirectories, h] at hkeeps

end Toolchain6502.Files.Tree
