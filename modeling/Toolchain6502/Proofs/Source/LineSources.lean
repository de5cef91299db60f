import Toolchain6502.Proofs.Source.Expansion

namespace Toolchain6502.Source

open Files Text Relation

variable {t : Tree} {u v w : Piece}

theorem ExpandsFrom.unique {number : Nat} {rest : List String} {ls ls' : List TracedLine}
    (h : ExpandsFrom t u number rest ls) (h' : ExpandsFrom t u number rest ls') : ls = ls' := by
  induction h generalizing ls' with
  | nil =>
    cases h'
    rfl
  | copy hline hrest ih =>
    cases h' with
    | copy _ hrest' => rw [ih hrest']
    | directive hline' => simp [hline] at hline'
  | directive hline htarget hread hinner hrest ihinner ihrest =>
    cases h' with
    | copy hline' => simp [hline] at hline'
    | directive _ htarget' hread' hinner' hrest' =>
      obtain rfl := Option.some.inj (htarget.symm.trans htarget')
      obtain rfl := Except.ok.inj (hread.symm.trans hread')
      rw [ihinner hinner', ihrest hrest']

theorem ExpandsFrom.split {number : Nat} {first second : List String} {ls : List TracedLine}
    (h : ExpandsFrom t u number (first ++ second) ls) :
    ∃ before after, ExpandsFrom t u number first before ∧
      ExpandsFrom t u (number + first.length) second after ∧ ls = before ++ after := by
  induction first generalizing number ls with
  | nil => exact ⟨[], ls, .nil u number, h, rfl⟩
  | cons line first ih =>
    have hnumber : number + (line :: first).length = number + 1 + first.length := by
      simp only [List.length_cons]
      omega
    rw [hnumber]
    cases h with
    | copy hline hrest =>
      obtain ⟨before, after, hbefore, hafter, rfl⟩ := ih hrest
      exact ⟨_, after, .copy hline hbefore, hafter, rfl⟩
    | directive hline htarget hread hinner hrest =>
      obtain ⟨before, after, hbefore, hafter, rfl⟩ := ih hrest
      exact ⟨_, after, .directive hline htarget hread hinner hbefore, hafter,
        (List.append_assoc _ _ _).symm⟩

/-- The merged line at an index belongs to a line of the text, both counted from zero: the expansion
of the lines before that one ends in front of it, and with that one behind it. -/
def Piece.BelongsTo (t : Tree) (u : Piece) (k n : Nat) : Prop :=
  ∃ before through, ExpandsFrom t u 1 ((lines u.text).take n) before ∧
    ExpandsFrom t u 1 ((lines u.text).take (n + 1)) through ∧
    before.length ≤ k ∧ k < through.length

theorem Piece.Expands.take {ls : List TracedLine} (h : u.Expands t ls) (n : Nat) :
    ∃ before, ExpandsFrom t u 1 ((lines u.text).take n) before := by
  rw [Piece.Expands, ← List.take_append_drop n (lines u.text)] at h
  obtain ⟨before, -, hbefore, -⟩ := h.split
  exact ⟨before, hbefore⟩

theorem Piece.Expands.exists_belongsTo {ls : List TracedLine} (h : u.Expands t ls) {k : Nat}
    (hk : k < ls.length) : ∃ n own, (lines u.text)[n]? = some own ∧ u.BelongsTo t k n := by
  have hfront : ∀ m ls, ExpandsFrom t u 1 ((lines u.text).take m) ls → k < ls.length →
      ∃ n < m, u.BelongsTo t k n := by
    intro m
    induction m with
    | zero =>
      intro ls hls hk
      cases hls
      simp at hk
    | succ m ih =>
      intro through hthrough hk
      obtain ⟨before, hbefore⟩ := h.take m
      by_cases hless : k < before.length
      · obtain ⟨n, hn, hbelongs⟩ := ih before hbefore hless
        exact ⟨n, by omega, hbelongs⟩
      · exact ⟨m, by omega, before, through, hbefore, hthrough, by omega, hk⟩
  have hall : ExpandsFrom t u 1 ((lines u.text).take (lines u.text).length) ls := by
    rw [List.take_length]
    exact h
  obtain ⟨n, hn, hbelongs⟩ := hfront _ ls hall hk
  exact ⟨n, _, List.getElem?_eq_getElem hn, hbelongs⟩

/-- What belongs to one line stands behind the expansion of the lines before it. -/
theorem Piece.BelongsTo.exists_getElem? {ls : List TracedLine} {k n : Nat}
    (hbelongs : u.BelongsTo t k n) (h : u.Expands t ls) {own : String}
    (hown : (lines u.text)[n]? = some own) :
    ∃ part l, ExpandsFrom t u (n + 1) [own] part ∧ l ∈ part ∧ ls[k]? = some l := by
  obtain ⟨before, through, hbefore, hthrough, hlow, hhigh⟩ := hbelongs
  obtain ⟨hn, hget⟩ := List.getElem?_eq_some_iff.mp hown
  have hlength : 1 + ((lines u.text).take n).length = n + 1 := by
    rw [List.length_take_of_le (by omega)]
    omega
  have htake : (lines u.text).take (n + 1) = (lines u.text).take n ++ [own] := by
    rw [← hget, List.take_append_getElem hn]
  obtain ⟨before', part, hbefore', hpart, rfl⟩ := (htake ▸ hthrough).split
  obtain rfl := hbefore.unique hbefore'
  rw [Piece.Expands, ← List.take_append_drop (n + 1) (lines u.text)] at h
  obtain ⟨through', after, hthrough', -, rfl⟩ := h.split
  obtain rfl := hthrough.unique hthrough'
  rw [hlength] at hpart
  have hj : k - before.length < part.length := by
    rw [List.length_append] at hhigh
    omega
  refine ⟨part, part[k - before.length], hpart, List.getElem_mem hj, ?_⟩
  rw [List.append_assoc, List.getElem?_append_right hlow, List.getElem?_append_left hj,
    List.getElem?_eq_getElem hj]

/-- A line that is no directive is merged as it is, with its own number. -/
theorem Piece.BelongsTo.getElem?_own {ls : List TracedLine} {k n : Nat}
    (hbelongs : u.BelongsTo t k n) (h : u.Expands t ls) {own : String}
    (hown : (lines u.text)[n]? = some own) (hline : isInclude own.toList = false) :
    ls[k]? = some (own, ⟨u.canonical t, (n : Int) + 1⟩) := by
  obtain ⟨part, l, hpart, hl, hk⟩ := hbelongs.exists_getElem? h hown
  cases hpart with
  | copy _ hrest =>
    cases hrest
    rw [hk, List.mem_singleton.mp hl]
    simp
  | directive hline' => simp [hline] at hline'

/-- A line that belongs to a directive is copied from a file that the text includes. -/
theorem Piece.BelongsTo.copied {ls : List TracedLine} {k n : Nat}
    (hbelongs : u.BelongsTo t k n) (h : u.Expands t ls) {own : String}
    (hown : (lines u.text)[n]? = some own) (hline : isInclude own.toList = true) :
    ∃ l v w, ls[k]? = some l ∧ Includes t u v ∧ Reaches t v w ∧ w.Copied t l := by
  obtain ⟨part, l, hpart, hl, hk⟩ := hbelongs.exists_getElem? h hown
  cases hpart with
  | copy hline' => simp [hline] at hline'
  | @directive _ _ _ _ p text inner _ _ htarget hread hinner hrest =>
    cases hrest
    rw [List.append_nil] at hl
    have hincludes : Includes t u (.ofFile p text) :=
      ⟨own, Piece.mem_directives.mpr ⟨List.mem_of_getElem? hown, hline⟩, p, text, htarget, hread,
        rfl⟩
    obtain ⟨w, hw, hcopied⟩ := Piece.Expands.copied hinner l hl
    exact ⟨l, _, w, hk, hincludes, hw, hcopied⟩

theorem Expandable.not_mem_of_reaches {visited : List Path} (h : Expandable t visited u)
    (hw : Reaches t u w) : w.canonical t ∉ visited := by
  induction hw using ReflTransGen.head_induction_on generalizing visited with
  | refl => exact h.canonical_not_mem
  | head hincludes _ ih => exact fun hmem => ih (h.included hincludes) (List.mem_cons_of_mem _ hmem)

/-- No file that a text includes is named by the path of the text. -/
theorem Expandable.canonical_ne {visited : List Path} (h : Expandable t visited u)
    (hv : Includes t u v) (hw : Reaches t v w) : w.canonical t ≠ u.canonical t :=
  fun heq => (h.included hv).not_mem_of_reaches hw (heq ▸ List.mem_cons_self)

/-- A text without directives reaches no other. -/
theorem eq_of_reaches (hu : u.directives = []) (hw : Reaches t u w) : w = u := by
  rcases hw.cases_head with heq | ⟨v, ⟨line, hline, -⟩, -⟩
  · exact heq.symm
  · simp [hu] at hline

end Toolchain6502.Source
