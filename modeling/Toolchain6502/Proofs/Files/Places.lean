import Mathlib.Data.List.Basic
import Toolchain6502.Files.Tree
import Toolchain6502.Proofs.Outcome

namespace Toolchain6502.Files

namespace Path

/-- The absolute path without `..`, also for components that no file can have. -/
def resolved (current : List String) (p : Path) : Path :=
  ⟨.root, normalize [] (if p.isAbsolute then p.parts else current ++ p.parts)⟩

theorem resolve?_eq_some {current : List String} {p : Path} (h : p.hasNull = false) :
    p.resolve? current = some (p.resolved current) := by
  simp [resolve?, h, resolved]

theorem normalize_append (before xs ys : List String) :
    normalize before (xs ++ ys) = normalize (normalize before xs) ys := by
  induction xs generalizing before with
  | nil => rfl
  | cons x xs ih =>
    rw [List.cons_append, normalize, normalize]
    split <;> exact ih _

theorem normalize_of_not_mem {xs : List String} (h : ".." ∉ xs) (before : List String) :
    normalize before xs = before ++ xs := by
  induction xs generalizing before with
  | nil => simp [normalize]
  | cons x xs ih =>
    simp only [List.mem_cons, not_or] at h
    rw [normalize, if_neg (Ne.symm h.1), ih h.2, List.append_assoc, List.singleton_append]

/-- What is left of a path is a front of what was there before, and components of its own. -/
theorem exists_normalize_eq (before xs : List String) :
    ∃ k own, normalize before xs = before.take k ++ own ∧ own ⊆ xs := by
  induction xs generalizing before with
  | nil => exact ⟨before.length, [], by simp [normalize], List.nil_subset []⟩
  | cons x xs ih =>
    rw [normalize]
    split
    · obtain ⟨k, own, hown, hsubset⟩ := ih before.dropLast
      refine ⟨min k (before.length - 1), own, ?_, List.subset_cons_of_subset x hsubset⟩
      rw [hown, List.dropLast_eq_take, List.take_take]
    · obtain ⟨k, own, hown, hsubset⟩ := ih (before ++ [x])
      rcases Nat.lt_or_ge before.length k with hk | hk
      · refine ⟨before.length, x :: own, ?_, List.cons_subset_cons x hsubset⟩
        have hwhole : (before ++ [x]).take k = before ++ [x] :=
          List.take_of_length_le (by rw [List.length_append, List.length_singleton]; omega)
        rw [hown, hwhole, List.take_length, List.append_assoc, List.singleton_append]
      · refine ⟨k, own, ?_, List.subset_cons_of_subset x hsubset⟩
        rw [hown, List.take_append_of_le_length hk]

theorem resolved_join {current : List String} {p q : Path} (hq : q.isAbsolute = false) :
    (p.join q).resolved current = ⟨.root, normalize (p.resolved current).parts q.parts⟩ := by
  have hjoin : p.join q = { p with parts := p.parts ++ q.parts } := by simp [join, hq]
  have habsolute : (p.join q).isAbsolute = p.isAbsolute := by rw [hjoin]; rfl
  have hparts : (p.join q).parts = p.parts ++ q.parts := by rw [hjoin]
  unfold resolved
  rw [habsolute, hparts]
  split
  · rw [normalize_append]
  · rw [← List.append_assoc, normalize_append]

/-- A path that leads below its base tells the last name itself. -/
theorem mem_parts_of_resolved_join {current : List String} {p q : Path} {directory name : String}
    (h : ((p.join q).resolved current).parts = (p.resolved current).parts ++ [directory, name]) :
    name ∈ q.parts := by
  have hlast (before : List String) (hbefore : before.length ≤ (p.resolved current).parts.length)
      (hparts : ((p.join q).resolved current).parts = normalize before q.parts) :
      name ∈ q.parts := by
    obtain ⟨k, own, hown, hsubset⟩ := exists_normalize_eq before q.parts
    have heq : before.take k ++ own = (p.resolved current).parts ++ [directory, name] := by
      rw [← hown, ← hparts, h]
    have hne : own ≠ [] := by
      rintro rfl
      have hlength := congrArg List.length heq
      simp only [List.length_append, List.length_take, List.length_cons, List.length_nil] at hlength
      omega
    have hname : own.getLast? = some name := by
      have hends := congrArg List.getLast? heq
      rw [List.getLast?_append_of_ne_nil _ hne] at hends
      simpa using hends
    exact hsubset (List.mem_of_getLast? hname)
  cases hq : q.isAbsolute with
  | true => exact hlast [] (Nat.zero_le _) (by simp [join, hq, resolved])
  | false => exact hlast _ (Nat.le_refl _) (by rw [resolved_join hq])

/-- The first part is a prefix of the text, and the others are found behind it. -/
theorem parts_of_split (separator : Char) (cs : List Char) :
    (∀ part ∈ (Text.split separator cs).head?, part <+: cs) ∧
      ∀ part ∈ (Text.split separator cs).tail, part <:+: cs := by
  induction cs with
  | nil => simp [Text.split]
  | cons c cs ih =>
    obtain ⟨hfirst, hrest⟩ := ih
    rw [Text.split]
    split
    · refine ⟨by simp, ?_⟩
      intro part hpart
      rw [List.tail_cons] at hpart
      apply List.infix_cons
      cases hsplit : Text.split separator cs with
      | nil => simp [hsplit] at hpart
      | cons first rest =>
        rw [hsplit] at hpart hfirst hrest
        rcases List.mem_cons.mp hpart with rfl | hpart
        · exact (hfirst _ rfl).isInfix
        · exact hrest part hpart
    · split
      · simp
      · rename_i first rest hsplit
        rw [hsplit] at hfirst hrest
        refine ⟨?_, fun part hpart => List.infix_cons (hrest part hpart)⟩
        intro part hpart
        obtain rfl := Option.some.inj hpart
        exact List.cons_prefix_cons.mpr ⟨rfl, hfirst first rfl⟩

theorem infix_of_mem_split {separator : Char} {cs part : List Char}
    (h : part ∈ Text.split separator cs) : part <:+: cs := by
  obtain ⟨hfirst, hrest⟩ := parts_of_split separator cs
  cases hsplit : Text.split separator cs with
  | nil => simp [hsplit] at h
  | cons first rest =>
    rw [hsplit] at h hfirst hrest
    rcases List.mem_cons.mp h with rfl | h
    · exact (hfirst _ rfl).isInfix
    · exact hrest part h

theorem mem_of_mem_split {separator c : Char} {cs part : List Char}
    (hpart : part ∈ Text.split separator cs) (hc : c ∈ part) : c ∈ cs :=
  (infix_of_mem_split hpart).subset hc

theorem hasNull_eq_false {p : Path} :
    p.hasNull = false ↔ ∀ part ∈ p.parts, Char.ofNat 0 ∉ part.toList := by
  simp [hasNull]

theorem hasNull_ofText {name : List Char} (h : Char.ofNat 0 ∉ name) :
    (ofText (String.ofList name)).hasNull = false := by
  rw [hasNull_eq_false]
  intro part hpart hnull
  simp only [ofText, String.toList_ofList, List.mem_map, List.mem_filter] at hpart
  obtain ⟨cs, ⟨hcs, -⟩, rfl⟩ := hpart
  rw [String.toList_ofList] at hnull
  exact h (mem_of_mem_split hcs hnull)

theorem hasNull_join {p q : Path} (hp : p.hasNull = false) (hq : q.hasNull = false) :
    (p.join q).hasNull = false := by
  rw [hasNull_eq_false] at hp hq ⊢
  unfold join
  split
  · exact hq
  · intro part hpart
    rcases List.mem_append.mp hpart with hpart | hpart
    · exact hp part hpart
    · exact hq part hpart

theorem hasNull_parent {p : Path} (hp : p.hasNull = false) : p.parent.hasNull = false := by
  rw [hasNull_eq_false] at hp ⊢
  exact fun part hpart => hp part ((List.dropLast_subset p.parts) hpart)

end Path

namespace Tree

/-- The current directory is a place, in which `..` does not occur. -/
def Grounded (t : Tree) : Prop := ".." ∉ t.current

instance (t : Tree) : Decidable t.Grounded := inferInstanceAs (Decidable (".." ∉ t.current))

theorem walk_eq_ok {t : Tree} {here parts place : List String}
    (h : t.walk here parts = .ok place) : place = Path.normalize here parts := by
  induction parts generalizing here with
  | nil => exact (Except.ok.inj h).symm
  | cons part rest ih =>
    rw [walk] at h
    rw [Path.normalize]
    split at h
    · simp at h
    · simp at h
    · split at h
      · rw [if_pos ‹_›]
        exact ih h
      · rw [if_neg ‹_›]
        split at h
        · simp at h
        · exact ih h

theorem place_eq_ok {t : Tree} (ht : t.Grounded) {p : Path} {place : List String}
    (h : t.place p = .ok place) : place = (p.resolved t.current).parts := by
  unfold Tree.place at h
  split at h
  · simp at h
  · have hplace := walk_eq_ok h
    by_cases ha : p.isAbsolute
    · simpa [Path.resolved, ha] using hplace
    · simpa [Path.resolved, ha, Path.normalize_append, Path.normalize_of_not_mem ht] using hplace

theorem stat_eq_ok {t : Tree} (ht : t.Grounded) {p : Path} {node : Node}
    (h : t.stat p = .ok node) : t.node? (p.resolved t.current).parts = some node := by
  obtain ⟨place, hplace, h⟩ := bind_eq_ok.mp h
  rw [place_eq_ok ht hplace] at h
  split at h
  · rename_i found hfound
    rw [hfound, Except.ok.inj h]
  · simp at h

theorem read_eq_ok {t : Tree} {p : Path} {bytes : List UInt8} :
    t.read p = .ok bytes ↔ t.stat p = .ok (.file bytes) := by
  unfold read
  cases h : t.stat p with
  | error f => simp
  | ok node => cases node <;> simp

theorem isFile_iff {t : Tree} {p : Path} : t.isFile p = true ↔ ∃ bytes, t.read p = .ok bytes := by
  simp only [read_eq_ok, isFile]
  cases h : t.stat p with
  | error f => simp
  | ok node => cases node <;> simp

theorem mem_entries_of_file {t : Tree} {place : List String} {bytes : List UInt8}
    (h : t.node? place = some (.file bytes)) : (place, .file bytes) ∈ t.entries := by
  unfold node? at h
  split at h
  · simp at h
  · obtain ⟨before, after, hentries, -⟩ := List.lookup_eq_some_iff.mp h
    simp [hentries]

end Tree

end Toolchain6502.Files
