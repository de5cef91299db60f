import Toolchain6502.Proofs.Files.Places
import Toolchain6502.Proofs.Text.Trimming

namespace Toolchain6502.Files

open Text

/-- A text that can be a component of a path. -/
def isComponent (name : String) : Bool := name != "" && name != "." && !name.toList.contains '/'

theorem isComponent_iff {name : String} :
    isComponent name = true ↔ name.toList ≠ [] ∧ name.toList ≠ ['.'] ∧ '/' ∉ name.toList := by
  have hdot : name = "." ↔ name.toList = ['.'] := by rw [← String.toList_inj]; rfl
  simp [isComponent, hdot, and_assoc]

namespace Path

def Formed (p : Path) : Prop := ∀ part ∈ p.parts, isComponent part = true

instance (p : Path) : Decidable p.Formed :=
  inferInstanceAs (Decidable (∀ part ∈ p.parts, isComponent part = true))

/-- A part of a text that is a component of its path. -/
def isPart (part : List Char) : Bool := !part.isEmpty && part != ['.']

theorem ofText_eq (s : String) :
    ofText s = ⟨anchorOf s.toList, ((split '/' s.toList).filter isPart).map String.ofList⟩ := rfl

theorem formed_ofText (s : String) : (ofText s).Formed := by
  intro part hpart
  obtain ⟨cs, hcs, rfl⟩ := List.mem_map.mp hpart
  obtain ⟨hsplit, hkept⟩ := List.mem_filter.mp hcs
  rw [isComponent_iff, String.toList_ofList]
  exact ⟨by rintro rfl; simp at hkept, by rintro rfl; simp at hkept, not_mem_of_mem_split hsplit⟩

theorem Formed.join {p q : Path} (hp : p.Formed) (hq : q.Formed) : (p.join q).Formed := by
  unfold Path.join
  split
  · exact hq
  · exact List.forall_mem_append.mpr ⟨hp, hq⟩

theorem Formed.child {p : Path} (hp : p.Formed) (name : String) : (p.child name).Formed :=
  hp.join (formed_ofText name)

theorem Formed.resolved {current : List String} {p : Path} (hp : p.Formed)
    (hcurrent : ∀ part ∈ current, isComponent part = true) : (p.resolved current).Formed := by
  have hparts : ∀ part ∈ (if p.isAbsolute then p.parts else current ++ p.parts),
      isComponent part = true := by
    split
    · exact hp
    · exact List.forall_mem_append.mpr ⟨hcurrent, hp⟩
  obtain ⟨k, own, hown, hsubset⟩ :=
    exists_normalize_eq [] (if p.isAbsolute then p.parts else current ++ p.parts)
  intro part hpart
  rw [Path.resolved, hown, List.take_nil, List.nil_append] at hpart
  exact hparts part (hsubset hpart)

theorem anchorOf_append (a : Anchor) {rest : List Char} (h : ∀ c ∈ rest.head?, c ≠ '/') :
    anchorOf (a.text.toList ++ rest) = a := by
  have hrest : rest.takeWhile (· = '/') = [] := by
    cases rest with
    | nil => rfl
    | cons c rest => simp [h c rfl]
  cases a <;> simp [anchorOf, Anchor.text, hrest]

theorem filter_split_append (a : Anchor) (rest : List Char) :
    (split '/' (a.text.toList ++ rest)).filter isPart = (split '/' rest).filter isPart := by
  cases a <;> simp [Anchor.text, split, isPart]

theorem Formed.filter_split {p : Path} (h : p.Formed) :
    (split '/' (['/'].intercalate (p.parts.map String.toList))).filter isPart =
      p.parts.map String.toList := by
  have hparts : ∀ cs ∈ p.parts.map String.toList, isPart cs = true ∧ '/' ∉ cs := by
    intro cs hcs
    obtain ⟨part, hpart, rfl⟩ := List.mem_map.mp hcs
    obtain ⟨hne, hdot, hslash⟩ := isComponent_iff.mp (h part hpart)
    exact ⟨by simp [isPart, hne, hdot], hslash⟩
  by_cases hnil : p.parts.map String.toList = []
  · rw [hnil]
    rfl
  · rw [split_intercalate hnil fun cs hcs => (hparts cs hcs).2]
    exact List.filter_eq_self.mpr fun cs hcs => (hparts cs hcs).1

theorem Formed.head_ne {p : Path} (h : p.Formed) :
    ∀ c ∈ (['/'].intercalate (p.parts.map String.toList)).head?, c ≠ '/' := by
  cases hparts : p.parts with
  | nil => simp
  | cons part parts =>
    obtain ⟨hne, -, hslash⟩ := isComponent_iff.mp (h part (by simp [hparts]))
    have hhead : (['/'].intercalate ((part :: parts).map String.toList)).head? =
        part.toList.head? := by
      cases parts with
      | nil => simp
      | cons next parts =>
        rw [List.map_cons, List.map_cons, List.intercalate_cons_cons, List.append_assoc,
          List.head?_append_of_ne_nil _ hne]
    rw [hhead]
    rintro c hc rfl
    exact hslash (List.mem_of_mem_head? hc)

/-- A path is read back from its text. -/
theorem Formed.ofText_toText {p : Path} (h : p.Formed) : ofText p.toText = p := by
  obtain ⟨anchor, parts⟩ := p
  by_cases hdot : (anchor = .relative && parts.isEmpty) = true
  · obtain ⟨rfl, rfl⟩ : anchor = .relative ∧ parts = [] := by simpa using hdot
    rfl
  · have htext : (toText ⟨anchor, parts⟩).toList =
        anchor.text.toList ++ ['/'].intercalate (parts.map String.toList) := by
      simp only [toText, hdot]
      simp [String.toList_intercalate]
    rw [ofText_eq, htext, anchorOf_append anchor h.head_ne, filter_split_append, h.filter_split]
    simp [Function.comp_def]

theorem Formed.toText_inj {p q : Path} (hp : p.Formed) (hq : q.Formed)
    (h : p.toText = q.toText) : p = q := by
  rw [← hp.ofText_toText, h, hq.ofText_toText]

theorem eq_of_relativeTo?_eq_some {p base r : Path} (h : p.relativeTo? base = some r) :
    p = ⟨base.anchor, base.parts ++ r.parts⟩ ∧ r.isAbsolute = false := by
  obtain ⟨anchor, parts⟩ := p
  unfold relativeTo? at h
  split at h
  · next hbelow =>
    obtain rfl := Option.some.inj h
    simp only [Bool.and_eq_true, decide_eq_true_eq, List.isPrefixOf_iff_prefix] at hbelow
    obtain ⟨rfl, rest, rfl⟩ := hbelow
    exact ⟨by simp, rfl⟩
  · simp at h

theorem Formed.relativeTo? {p base r : Path} (hp : p.Formed) (h : p.relativeTo? base = some r) :
    r.Formed := by
  rw [(eq_of_relativeTo?_eq_some h).1] at hp
  exact (List.forall_mem_append.mp hp).2

/-- Seen from any directory, absolute paths are told apart. One below the directory is written
without a slash in front, any other one with it. -/
theorem Formed.eq_of_shown {p q base : Path} (hp : p.Formed) (hq : q.Formed)
    (hroot : p.isAbsolute = true) (hroot' : q.isAbsolute = true)
    (h : ((p.relativeTo? base).getD p).toText = ((q.relativeTo? base).getD q).toText) : p = q := by
  cases hpr : p.relativeTo? base with
  | none =>
    cases hqr : q.relativeTo? base with
    | none => exact hp.toText_inj hq (by simpa [hpr, hqr] using h)
    | some r =>
      obtain rfl := hp.toText_inj (hq.relativeTo? hqr) (by simpa [hpr, hqr] using h)
      simp [(eq_of_relativeTo?_eq_some hqr).2] at hroot
  | some r =>
    cases hqr : q.relativeTo? base with
    | none =>
      obtain rfl := (hp.relativeTo? hpr).toText_inj hq (by simpa [hpr, hqr] using h)
      simp [(eq_of_relativeTo?_eq_some hpr).2] at hroot'
    | some r' =>
      obtain rfl := (hp.relativeTo? hpr).toText_inj (hq.relativeTo? hqr)
        (by simpa [hpr, hqr] using h)
      rw [(eq_of_relativeTo?_eq_some hpr).1, (eq_of_relativeTo?_eq_some hqr).1]

end Path

/-- The components of all places can be components, and `..` is not among those of the current
directory. -/
def Tree.Named (t : Tree) : Prop :=
  t.Grounded ∧ (∀ part ∈ t.current, isComponent part = true) ∧
    ∀ e ∈ t.entries, ∀ part ∈ e.1, isComponent part = true

instance (t : Tree) : Decidable t.Named := inferInstanceAs (Decidable (_ ∧ _ ∧ _))

end Toolchain6502.Files
