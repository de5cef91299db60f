import Toolchain6502.Proofs.Source.IncludeGraph

namespace Toolchain6502.Source

open Files Text Relation

variable {e : Failure} {t : Tree} {p : Path} {u : Piece} {visited after : List Path} {line : String}
  {out : List TracedLine} {depth : Nat}

def OfInclude (e : Failure) : Prop :=
  ∃ d file reason, e = .assembly d ∧ d.fault = .cannotInclude file reason

theorem ofInclude_cannotInclude (file reason : String) : OfInclude (cannotInclude file reason) :=
  ⟨_, file, reason, rfl, rfl⟩

theorem OfInclude.placeInclude (h : OfInclude e) (location : Location) (line : String) :
    OfInclude (placeInclude location line e) := by
  obtain ⟨d, file, reason, rfl, hd⟩ := h
  simp only [Source.placeInclude]
  split
  · exact ⟨_, file, reason, rfl, hd⟩
  · exact ⟨_, file, reason, rfl, hd⟩

theorem ofInclude_of_readIncluded (ht : t.Grounded) (htext : Textual t) (hnull : p.hasNull = false)
    (h : readIncluded t p = .error e) : OfInclude e := by
  unfold readIncluded readText readBytes at h
  rw [if_neg (by simp [hnull])] at h
  cases hread : t.read p with
  | error f =>
    simp only [hread, failWith, error_bind, Except.error.injEq] at h
    exact h ▸ ofInclude_cannotInclude _ _
  | ok bytes =>
    obtain ⟨chars, hchars⟩ := htext.decodes ht hread
    simp [hread, hchars, failWith] at h

/-- A line is copied, or it is a directive whose file is expanded. -/
theorem expandLine_eq_ok {f : List Path → Path → Except Failure Expanded} {c : Path} {number : Nat} :
    expandLine f u.base c visited number line = .ok (out, after) ↔
      isInclude line.toList = false ∧ out = [(line, ⟨c, number⟩)] ∧ after = visited ∨
      isInclude line.toList = true ∧ ∃ p, u.target? line = some p ∧ f visited p = .ok (out, after) := by
  unfold expandLine Piece.target?
  cases hline : isInclude line.toList with
  | false => simp [@eq_comm _ out, @eq_comm _ after]
  | true =>
    cases htarget : includeTarget? line.toList with
    | none => simp
    | some name => simp [failWith_eq_ok]

theorem expandLine_eq_error {f : List Path → Path → Except Failure Expanded} {c : Path}
    {number : Nat} (h : expandLine f u.base c visited number line = .error e)
    (hf : ∀ p e, u.target? line = some p → f visited p = .error e → OfInclude e) : OfInclude e := by
  unfold expandLine at h
  split at h
  · split at h
    · rw [← Except.error.inj h]
      exact (ofInclude_cannotInclude _ _).placeInclude _ _
    · rename_i name hname
      have htarget : u.target? line = some (u.base.join (Path.ofText (String.ofList name))) := by
        simp [Piece.target?, hname]
      cases hinner : f visited (u.base.join (Path.ofText (String.ofList name))) with
      | ok r => simp [hinner, failWith] at h
      | error e' =>
        simp only [hinner, failWith, Except.error.injEq] at h
        exact h ▸ (hf _ e' htarget hinner).placeInclude _ _
  · simp at h

/-- The files that are included leave the visited ones as they were. -/
def Restores (f : List Path → Path → Except Failure Expanded) : Prop :=
  ∀ visited p out after, f visited p = .ok (out, after) → after = visited

section Lines

variable {t : Tree} {u : Piece} {f : List Path → Path → Except Failure Expanded} {c : Path}
  {visited after : List Path} {number : Nat} {ls : List String} {out : List TracedLine}

theorem expandLine_restores (hf : Restores f)
    (h : expandLine f u.base c visited number line = .ok (out, after)) : after = visited := by
  rcases expandLine_eq_ok.mp h with ⟨-, -, hafter⟩ | ⟨-, p, -, hp⟩
  · exact hafter
  · exact hf visited p out after hp

theorem expandLines_cons_eq_ok (hf : Restores f) :
    expandLines f u.base c visited number (line :: ls) = .ok (out, after) ↔ ∃ first others,
      expandLine f u.base c visited number line = .ok (first, visited) ∧
      expandLines f u.base c visited (number + 1) ls = .ok (others, after) ∧
      out = first ++ others := by
  rw [expandLines]
  constructor
  · intro h
    obtain ⟨⟨first, between⟩, hfirst, h⟩ := bind_eq_ok.mp h
    obtain ⟨⟨others, last⟩, hothers, h⟩ := bind_eq_ok.mp h
    obtain ⟨rfl, rfl⟩ := Prod.mk.inj (Except.ok.inj h)
    obtain rfl := expandLine_restores hf hfirst
    exact ⟨first, others, hfirst, hothers, rfl⟩
  · rintro ⟨first, others, hfirst, hothers, rfl⟩
    simp [hfirst, hothers]

theorem expandLines_restores (hf : Restores f)
    (h : expandLines f u.base c visited number ls = .ok (out, after)) : after = visited := by
  induction ls generalizing number out with
  | nil => exact (Prod.mk.inj (Except.ok.inj h)).2.symm
  | cons line rest ih =>
    obtain ⟨first, others, -, hothers, -⟩ := (expandLines_cons_eq_ok hf).mp h
    exact ih hothers

/-- If every file that is included is expanded, so are the lines. -/
theorem expandLines_expands (hf : Restores f)
    (hinner : ∀ p out after, f visited p = .ok (out, after) →
      ∃ text, readIncluded t p = .ok text ∧ (Piece.ofFile p text).Expands t out)
    (h : expandLines f u.base (u.canonical t) visited number ls = .ok (out, after)) :
    ExpandsFrom t u number ls out := by
  induction ls generalizing number out with
  | nil =>
    obtain ⟨rfl, -⟩ := Prod.mk.inj (Except.ok.inj h)
    exact .nil u number
  | cons line rest ih =>
    obtain ⟨first, others, hfirst, hothers, rfl⟩ := (expandLines_cons_eq_ok hf).mp h
    rcases expandLine_eq_ok.mp hfirst with ⟨hline, rfl, -⟩ | ⟨hline, p, htarget, hp⟩
    · exact .copy hline (ih hothers)
    · obtain ⟨text, hread, hexpands⟩ := hinner p first visited hp
      exact .directive hline htarget hread hexpands (ih hothers)

/-- The walk succeeds just when every directive names a file that can be expanded. -/
theorem exists_expandLines_iff (hf : Restores f) :
    (∃ out, expandLines f u.base c visited number ls = .ok (out, visited)) ↔
      ∀ line ∈ ls, isInclude line.toList = true →
        ∃ p out, u.target? line = some p ∧ f visited p = .ok (out, visited) := by
  induction ls generalizing number with
  | nil => simp [expandLines]
  | cons line rest ih =>
    have hhead : (∃ first, expandLine f u.base c visited number line = .ok (first, visited)) ↔
        (isInclude line.toList = true →
          ∃ p out, u.target? line = some p ∧ f visited p = .ok (out, visited)) := by
      simp only [expandLine_eq_ok]
      cases isInclude line.toList <;> simp [exists_comm]
    have hrest := @ih (number + 1)
    simp only [expandLines_cons_eq_ok hf, List.forall_mem_cons, ← hhead, ← hrest]
    constructor
    · rintro ⟨-, first, others, hfirst, hothers, -⟩
      exact ⟨⟨first, hfirst⟩, others, hothers⟩
    · rintro ⟨⟨first, hfirst⟩, others, hothers⟩
      exact ⟨_, first, others, hfirst, hothers, rfl⟩

theorem expandLines_eq_error (hf : Restores f)
    (h : expandLines f u.base c visited number ls = .error e)
    (hinner : ∀ line ∈ ls, isInclude line.toList = true → ∀ p e, u.target? line = some p →
      f visited p = .error e → OfInclude e) : OfInclude e := by
  induction ls generalizing number with
  | nil => simp [expandLines] at h
  | cons line rest ih =>
    rw [List.forall_mem_cons] at hinner
    rw [expandLines] at h
    cases hfirst : expandLine f u.base c visited number line with
    | error e' =>
      simp only [hfirst, error_bind, Except.error.injEq] at h
      subst h
      apply expandLine_eq_error hfirst
      intro p e hp he
      -- A line that is copied does not fail.
      by_cases hline : isInclude line.toList = true
      · exact hinner.1 hline p e hp he
      · simp [expandLine, hline] at hfirst
    | ok r =>
      obtain ⟨first, between⟩ := r
      obtain rfl := expandLine_restores hf hfirst
      cases hothers : expandLines f u.base c between (number + 1) rest with
      | ok r => simp [hfirst, hothers] at h
      | error e' =>
        simp only [hfirst, hothers, ok_bind, error_bind, Except.error.injEq] at h
        exact ih (h ▸ hothers) hinner.2

end Lines

def expandIncluded (t : Tree) (depth : Nat) (visited : List Path) (p : Path) :
    Except Failure Expanded := do
  let text ← readIncluded t p
  expandWithin t depth visited p.parent p text

theorem expandIncluded_eq_ok :
    expandIncluded t depth visited p = .ok (out, after) ↔ ∃ text, readIncluded t p = .ok text ∧
      expandWithin t depth visited p.parent p text = .ok (out, after) :=
  bind_eq_ok

/-- Everything that the expansion of a text can do. -/
theorem expandWithin_eq (hnull : u.file.hasNull = false) (depth : Nat) :
    expandWithin t depth visited u.base u.file u.text =
      if u.canonical t ∈ visited then .error (cycleAt (u.canonical t))
      else match depth with
        | 0 => .error (cycleAt (u.canonical t))
        | depth + 1 =>
          (expandLines (expandIncluded t depth) u.base (u.canonical t) (u.canonical t :: visited) 1
            (lines u.text)).map fun r => (r.1, r.2.erase (u.canonical t)) := by
  have hcanonical : Source.canonical t.current u.file = .ok (u.canonical t) := by
    rw [Source.canonical, Path.resolve?_eq_some hnull]
    rfl
  unfold expandWithin
  rw [hcanonical, ok_bind]
  by_cases hmem : u.canonical t ∈ visited
  · simp [hmem]
  · simp only [hmem, List.contains_eq_mem, decide_false, Bool.false_eq_true, if_false, pure_eq_ok]
    cases depth with
    | zero => rfl
    | succ depth =>
      rfl

theorem expandWithin_eq_ok :
    expandWithin t depth visited u.base u.file u.text = .ok (out, after) ↔
      u.file.hasNull = false ∧ u.canonical t ∉ visited ∧ ∃ d left, depth = d + 1 ∧
        expandLines (expandIncluded t d) u.base (u.canonical t) (u.canonical t :: visited) 1
          (lines u.text) = .ok (out, left) ∧ after = left.erase (u.canonical t) := by
  cases hnull : u.file.hasNull with
  | true =>
    simp only [Bool.true_eq_false, false_and, iff_false]
    unfold expandWithin
    simp [Source.canonical, Path.resolve?, hnull]
  | false =>
    rw [expandWithin_eq hnull]
    by_cases hmem : u.canonical t ∈ visited
    · simp [hmem]
    · cases depth with
      | zero => simp [hmem]
      | succ depth =>
        simp only [hmem, if_false, Except.map]
        cases hlines : expandLines (expandIncluded t depth) u.base (u.canonical t)
          (u.canonical t :: visited) 1 (lines u.text) with
        | error e => simp [hlines]
        | ok r =>
          obtain ⟨ls, left⟩ := r
          simp [hlines, @eq_comm _ after]

/-- The file of a text is taken away again, so an expansion leaves the visited files as they
were. -/
theorem expandWithin_restores
    (h : expandWithin t depth visited u.base u.file u.text = .ok (out, after)) :
    after = visited := by
  -- The files that are included restore what they find, so all that is left is the text's own file.
  induction depth generalizing visited after u out with
  | zero =>
    obtain ⟨-, -, d, left, hd, -⟩ := expandWithin_eq_ok.mp h
    simp at hd
  | succ depth ih =>
    obtain ⟨-, -, d, left, hd, hlines, rfl⟩ := expandWithin_eq_ok.mp h
    obtain rfl := Nat.succ.inj hd
    have hrestores : Restores (expandIncluded t depth) := by
      intro visited p out after hp
      obtain ⟨text, -, hp⟩ := expandIncluded_eq_ok.mp hp
      exact ih (u := .ofFile p text) hp
    rw [expandLines_restores hrestores hlines, List.erase_cons_head]

theorem expandIncluded_restores (t : Tree) (depth : Nat) : Restores (expandIncluded t depth) := by
  intro visited p out after hp
  obtain ⟨text, -, hp⟩ := expandIncluded_eq_ok.mp hp
  exact expandWithin_restores (u := .ofFile p text) hp

theorem expandWithin_expands
    (h : expandWithin t depth visited u.base u.file u.text = .ok (out, after)) :
    u.Expands t out := by
  induction depth generalizing visited after u out with
  | zero =>
    obtain ⟨-, -, d, left, hd, -⟩ := expandWithin_eq_ok.mp h
    simp at hd
  | succ depth ih =>
    obtain ⟨-, -, d, left, hd, hlines, -⟩ := expandWithin_eq_ok.mp h
    obtain rfl := Nat.succ.inj hd
    refine expandLines_expands (expandIncluded_restores t depth) ?_ hlines
    intro p out after hp
    obtain ⟨text, hread, hp⟩ := expandIncluded_eq_ok.mp hp
    exact ⟨text, hread, ih (u := .ofFile p text) hp⟩

/-- Only expandable texts are expanded. -/
theorem expandable_of_expandWithin
    (h : expandWithin t depth visited u.base u.file u.text = .ok (out, after)) :
    Expandable t visited u := by
  induction depth generalizing visited after u out with
  | zero =>
    obtain ⟨-, -, d, left, hd, -⟩ := expandWithin_eq_ok.mp h
    simp at hd
  | succ depth ih =>
    obtain ⟨-, hfresh, d, left, hd, hlines, -⟩ := expandWithin_eq_ok.mp h
    obtain rfl := Nat.succ.inj hd
    have hrestores := expandIncluded_restores t depth
    obtain rfl := expandLines_restores hrestores hlines
    have hall := (exists_expandLines_iff hrestores).mp ⟨out, hlines⟩
    refine .of_included hfresh ?_ ?_
    · intro line hline
      obtain ⟨hmem, hinclude⟩ := Piece.mem_directives.mp hline
      obtain ⟨p, out, htarget, hp⟩ := hall line hmem hinclude
      obtain ⟨text, hread, -⟩ := expandIncluded_eq_ok.mp hp
      exact ⟨p, htarget, isFile_of_readIncluded hread⟩
    · rintro w ⟨line, hline, p, text, htarget, hread, rfl⟩
      obtain ⟨hmem, hinclude⟩ := Piece.mem_directives.mp hline
      -- The walk met the same directive, and so it read the same file.
      obtain ⟨p', out, htarget', hp⟩ := hall line hmem hinclude
      obtain rfl : p = p' := Option.some.inj (htarget.symm.trans htarget')
      obtain ⟨text', hread', hp⟩ := expandIncluded_eq_ok.mp hp
      obtain rfl : text = text' := Except.ok.inj (hread.symm.trans hread')
      exact ih (u := .ofFile p text) hp

/-- No path that is met on the way holds a null character. -/
structure Piece.NullFree (t : Tree) (u : Piece) : Prop where
  base : u.base.hasNull = false
  file : u.file.hasNull = false
  names : ∀ w, Reaches t u w → ∀ line ∈ w.directives, ∀ name,
    includeTarget? line.toList = some name → Char.ofNat 0 ∉ name

theorem Piece.NullFree.target (h : u.NullFree t) (hline : line ∈ u.directives)
    (hp : u.target? line = some p) : p.hasNull = false := by
  obtain ⟨name, hname, rfl⟩ := Option.map_eq_some_iff.mp hp
  exact Path.hasNull_join h.base (Path.hasNull_ofText (h.names u .refl line hline name hname))

theorem Piece.NullFree.included {w : Piece} (h : u.NullFree t) (hw : Includes t u w) :
    w.NullFree t := by
  have hw' := hw
  obtain ⟨line, hline, p, text, htarget, -, rfl⟩ := hw
  have hp := h.target hline htarget
  exact ⟨Path.hasNull_parent hp, hp, fun v hv => h.names v (.head hw' hv)⟩

theorem length_filter_not_mem_cons [DecidableEq α] {xs ys : List α} {x : α} (hx : x ∈ xs)
    (hfresh : x ∉ ys) :
    (xs.filter (· ∉ x :: ys)).length < (xs.filter (· ∉ ys)).length := by
  have hsplit : xs.filter (· ∉ x :: ys) = (xs.filter (· ∉ ys)).filter (· ≠ x) := by
    rw [List.filter_filter]
    simp
  rw [hsplit, List.length_filter_lt_length_iff_exists]
  exact ⟨x, List.mem_filter.mpr ⟨hx, by simpa using hfresh⟩, by simp⟩

/-- Every expandable text is expanded, if the depth is not below the number of paths that can
still be met. -/
theorem exists_expandWithin (ht : t.Grounded) (htext : Textual t) {paths : List Path}
    (hknown : ∀ p ∈ knownPaths t, p ∈ paths) (hnull : u.NullFree t) (hu : u.canonical t ∈ paths)
    (h : Expandable t visited u) (hdepth : (paths.filter (· ∉ visited)).length ≤ depth) :
    ∃ out, expandWithin t depth visited u.base u.file u.text = .ok (out, visited) := by
  -- Every file that is entered is one path less to be met, so the depth and the paths go down
  -- together.
  induction depth generalizing visited u with
  | zero =>
    have hmem : u.canonical t ∈ paths.filter (· ∉ visited) :=
      List.mem_filter.mpr ⟨hu, by simpa using h.canonical_not_mem⟩
    have hpos := List.length_pos_of_mem hmem
    omega
  | succ depth ih =>
    have hless := length_filter_not_mem_cons hu h.canonical_not_mem
    have hlines : ∃ out, expandLines (expandIncluded t depth) u.base (u.canonical t)
        (u.canonical t :: visited) 1 (lines u.text) = .ok (out, u.canonical t :: visited) := by
      rw [exists_expandLines_iff (expandIncluded_restores t depth)]
      intro line hmem hinclude
      have hline := Piece.mem_directives.mpr ⟨hmem, hinclude⟩
      obtain ⟨p, htarget, hfile⟩ := h.named u .refl line hline
      obtain ⟨text, hread⟩ := exists_readIncluded ht htext (hnull.target hline htarget) hfile
      have hincludes : Includes t u (.ofFile p text) := ⟨line, hline, p, text, htarget, hread, rfl⟩
      obtain ⟨out, hout⟩ := ih (hnull.included hincludes)
        (hknown _ (resolved_mem_knownPaths ht hread)) (h.included hincludes) (by omega)
      exact ⟨p, out, htarget, expandIncluded_eq_ok.mpr ⟨text, hread, hout⟩⟩
    obtain ⟨out, hlines⟩ := hlines
    exact ⟨out, expandWithin_eq_ok.mpr
      ⟨hnull.file, h.canonical_not_mem, depth, _, rfl, hlines, by simp⟩⟩

/-- A text that is not expanded fails for an include. -/
theorem ofInclude_of_expandWithin (ht : t.Grounded) (htext : Textual t) (hnull : u.NullFree t)
    (h : expandWithin t depth visited u.base u.file u.text = .error e) : OfInclude e := by
  induction depth generalizing visited u e with
  | zero =>
    rw [expandWithin_eq hnull.file] at h
    split at h <;> exact Except.error.inj h ▸ ofInclude_cannotInclude _ _
  | succ depth ih =>
    rw [expandWithin_eq hnull.file] at h
    split at h
    · exact Except.error.inj h ▸ ofInclude_cannotInclude _ _
    · cases hlines : expandLines (expandIncluded t depth) u.base (u.canonical t)
          (u.canonical t :: visited) 1 (lines u.text) with
      | ok r => simp [hlines, Except.map] at h
      | error e' =>
        simp only [hlines, Except.map, Except.error.injEq] at h
        subst h
        refine expandLines_eq_error (expandIncluded_restores t depth) hlines ?_
        intro line hmem hinclude p e htarget he
        have hline := Piece.mem_directives.mpr ⟨hmem, hinclude⟩
        rcases bind_eq_error.mp he with hread | ⟨text, hread, he⟩
        · exact ofInclude_of_readIncluded ht htext (hnull.target hline htarget) hread
        · have hincludes : Includes t u (.ofFile p text) :=
            ⟨line, hline, p, text, htarget, hread, rfl⟩
          exact ih (hnull.included hincludes) he

theorem Traced.lines_ofLines {ls : List TracedLine}
    (h : ∀ l ∈ ls, ∀ c ∈ l.1.toList, isBreak c = false) :
    (Traced.ofLines ls).lines = ls.map Prod.fst := by
  have hunbroken : ∀ l ∈ ls.map Prod.fst, ∀ c ∈ l.toList, isBreak c = false := by simpa using h
  have hjoin := lines_join hunbroken
  simpa [Traced.lines, Traced.ofLines, Function.comp_def] using hjoin

@[simp] theorem Traced.origins_ofLines (ls : List TracedLine) :
    (Traced.ofLines ls).origins = ls.map Prod.snd := rfl

theorem Piece.Expands.copied {ls : List TracedLine} (h : u.Expands t ls) :
    ∀ l ∈ ls, ∃ w, Reaches t u w ∧ w.Copied t l :=
  ExpandsFrom.copied (k := 0) h rfl

theorem Piece.Expands.lines_ofLines {ls : List TracedLine} (h : u.Expands t ls) :
    (Traced.ofLines ls).lines = ls.map Prod.fst := by
  apply Traced.lines_ofLines
  intro l hl c hc
  obtain ⟨w, -, hcopied⟩ := h.copied l hl
  exact hcopied.isBreak_eq_false hc

theorem expandVisiting_eq_ok {unit : Traced} :
    expandVisiting t visited u.base u.file u.text = .ok (unit, after) ↔ ∃ ls,
      expandWithin t (includeDepth t) visited u.base u.file u.text = .ok (ls, after) ∧
        unit = .ofLines ls := by
  unfold expandVisiting
  cases h : expandWithin t (includeDepth t) visited u.base u.file u.text with
  | error e => simp
  | ok r =>
    obtain ⟨ls, left⟩ := r
    simp only [ok_bind, pure_eq_ok, Except.ok.injEq, Prod.mk.injEq]
    constructor
    · rintro ⟨rfl, rfl⟩
      exact ⟨ls, ⟨rfl, rfl⟩, rfl⟩
    · rintro ⟨ls', ⟨rfl, rfl⟩, rfl⟩
      exact ⟨rfl, rfl⟩

/-- The depth is enough for any text: its own path and those of the nodes are all that can be met. -/
theorem includeDepth_enough (t : Tree) (visited : List Path) (u : Piece) :
    ((u.canonical t :: knownPaths t).filter (· ∉ visited)).length ≤ includeDepth t := by
  have hle := List.length_filter_le (· ∉ visited) (u.canonical t :: knownPaths t)
  have hlength : (u.canonical t :: knownPaths t).length = t.entries.length + 1 := by
    simp [knownPaths]
  unfold includeDepth
  omega

/-- Include expansion is exact. It succeeds just when every directive that is reached names a file
and no chain of includes meets a visited file or one of its own again, and otherwise it fails for
an include. The merged lines are then the lines of the text, in order, each directive replaced by
the expansion of its file; every one stands at its origin, and the visited files are as before. -/
theorem expandVisiting_exact {t : Tree} (ht : t.Grounded) (htext : Textual t) {u : Piece}
    (hnull : u.NullFree t) (visited : List Path) :
    ((∃ r, expandVisiting t visited u.base u.file u.text = .ok r) ↔ Expandable t visited u) ∧
    (∀ e, expandVisiting t visited u.base u.file u.text = .error e → OfInclude e) ∧
    ∀ unit after, expandVisiting t visited u.base u.file u.text = .ok (unit, after) →
      after = visited ∧ unit.origins.length = unit.lines.length ∧
      u.Expands t (unit.lines.zip unit.origins) ∧
      (∀ line ∈ unit.lines, isInclude line.toList = false) ∧
      ∀ l ∈ unit.lines.zip unit.origins, ∃ w, Reaches t u w ∧ w.Copied t l := by
  refine ⟨⟨?_, ?_⟩, ?_, ?_⟩
  · rintro ⟨⟨unit, after⟩, h⟩
    obtain ⟨ls, hls, -⟩ := expandVisiting_eq_ok.mp h
    exact expandable_of_expandWithin hls
  · intro h
    obtain ⟨ls, hls⟩ := exists_expandWithin ht htext (fun p hp => List.mem_cons_of_mem _ hp) hnull
      List.mem_cons_self h (includeDepth_enough t visited u)
    exact ⟨_, expandVisiting_eq_ok.mpr ⟨ls, hls, rfl⟩⟩
  · intro e h
    rcases bind_eq_error.mp h with h | ⟨r, -, h⟩
    · exact ofInclude_of_expandWithin ht htext hnull h
    · simp at h
  · intro unit after h
    obtain ⟨ls, hls, rfl⟩ := expandVisiting_eq_ok.mp h
    have hexpands := expandWithin_expands hls
    have hlines := hexpands.lines_ofLines
    have hzip : (Traced.ofLines ls).lines.zip (Traced.ofLines ls).origins = ls := by
      rw [hlines, Traced.origins_ofLines]
      exact (List.zip_of_prod rfl rfl).symm
    refine ⟨expandWithin_restores hls, ?_, ?_, ?_, ?_⟩
    · rw [hlines, Traced.origins_ofLines, List.length_map, List.length_map]
    · rw [hzip]
      exact hexpands
    · intro line hline
      rw [hlines] at hline
      obtain ⟨l, hl, rfl⟩ := List.mem_map.mp hline
      exact hexpands.isInclude_eq_false l hl
    · rw [hzip]
      exact hexpands.copied

def includedTree : Tree where
  entries := [(["w"], .directory), (["w", "b.inc"], .file [78, 79, 80, 10])]
  current := ["w"]

def includingPiece : Piece := ⟨Path.ofText ".", Path.ofText "main.asm", "CLC\n.include \"b.inc\"\n"⟩

theorem includedTree_text {text : String} (h : readIncluded includedTree p = .ok text) :
    text = "NOP\n" := by
  obtain ⟨-, bytes, chars, hread, hchars, rfl⟩ := readText_eq_ok.mp h
  have hnode := Tree.stat_eq_ok (by decide : includedTree.Grounded) (Tree.read_eq_ok.mp hread)
  have hmem := Tree.mem_entries_of_file hnode
  obtain rfl : bytes = [78, 79, 80, 10] := by
    simp only [includedTree, List.mem_cons, List.not_mem_nil] at hmem
    simp_all
  have hdecoded : decodeUtf8 [78, 79, 80, 10] = .ok "NOP\n".toList :=
    eq_ok_of_toOption (by decide +kernel)
  rw [hdecoded] at hchars
  rw [← Except.ok.inj hchars]
  decide +kernel

theorem includingPiece_nullFree : includingPiece.NullFree includedTree := by
  have htexts : ∀ w, Reaches includedTree includingPiece w →
      w.text = includingPiece.text ∨ w.text = "NOP\n" := by
    intro w hw
    cases hw with
    | refl => exact .inl rfl
    | tail _ hw =>
      obtain ⟨-, -, p, text, -, hread, rfl⟩ := hw
      exact .inr (includedTree_text hread)
  refine ⟨by decide, by decide, ?_⟩
  intro w hw line hline name hname
  have hnames : ∀ text ∈ [includingPiece.text, "NOP\n"], ∀ line ∈ lines text,
      ∀ name ∈ includeTarget? line.toList, Char.ofNat 0 ∉ name := by decide +kernel
  rcases htexts w hw with htext | htext
  · exact hnames _ (by simp) line (htext ▸ (Piece.mem_directives.mp hline).1) name hname
  · exact hnames "NOP\n" (by simp) line (htext ▸ (Piece.mem_directives.mp hline).1) name hname

theorem includingPiece_expanded :
    ∃ unit, expandVisiting includedTree [] includingPiece.base includingPiece.file
        includingPiece.text = .ok (unit, []) ∧
      Expandable includedTree [] includingPiece ∧
      includingPiece.Expands includedTree (unit.lines.zip unit.origins) := by
  obtain ⟨r, hr⟩ : ∃ r, expandVisiting includedTree [] includingPiece.base includingPiece.file
      includingPiece.text = .ok r := exists_eq_ok_of_isSome (by decide +kernel)
  obtain ⟨unit, after⟩ := r
  obtain ⟨hsuccess, -, hresult⟩ :=
    expandVisiting_exact (by decide +kernel) (by decide +kernel) includingPiece_nullFree []
  obtain ⟨rfl, -, hexpands, -⟩ := hresult unit after hr
  exact ⟨unit, hr, hsuccess.mp ⟨_, hr⟩, hexpands⟩

end Toolchain6502.Source
