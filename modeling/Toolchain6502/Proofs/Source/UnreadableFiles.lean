import Toolchain6502.Proofs.Source.Expansion

namespace Toolchain6502

/-- The failure is one that a tool reports in its own words, at a place of the source. -/
def Failure.isReported : Failure → Bool
  | assembly _ | c _ | project _ => true
  | machine _ | number _ | numeral _ | decoding _ | file _ _ | nullInPath | origin _
  | noOrigin => false

/-- How a computation ends that is stopped by no report: with a result, or with a failure. -/
def Ends (r : Except Failure α) : Option Failure → Prop
  | none => ∃ a, r = .ok a
  | some e => r = .error e ∧ e.isReported = false

namespace Ends

variable {r : Except Failure α} {stop : Option Failure}

@[simp] theorem ok_iff {a : α} : Ends (.ok a : Except Failure α) stop ↔ stop = none := by
  cases stop <;> simp [Ends]

@[simp] theorem error_iff {e : Failure} :
    Ends (.error e : Except Failure α) stop ↔ stop = some e ∧ e.isReported = false := by
  cases stop with
  | none => simp [Ends]
  | some e' =>
    simp only [Ends, Except.error.injEq, Option.some.injEq, @eq_comm _ e']
    constructor
    · rintro ⟨rfl, he⟩
      exact ⟨rfl, he⟩
    · rintro ⟨rfl, he⟩
      exact ⟨rfl, he⟩

theorem bind_iff {f : α → Except Failure β} :
    Ends (r >>= f) stop ↔
      (∃ e, stop = some e ∧ Ends r (some e)) ∨ ∃ a, r = .ok a ∧ Ends (f a) stop := by
  cases r with
  | error e =>
    simp only [error_bind, error_iff, Option.some.injEq, reduceCtorEq, false_and, exists_false,
      or_false]
    exact ⟨fun h => ⟨e, h.1, rfl, h.2⟩, by rintro ⟨_, rfl, rfl, he⟩; exact ⟨rfl, he⟩⟩
  | ok a => simp

@[simp] theorem bind_ok_iff {g : α → β} : Ends (r >>= fun a => .ok (g a)) stop ↔ Ends r stop := by
  cases r <;> simp

end Ends

namespace Source

open Files Text

variable {t : Tree} {line : String} {stop : Option Failure} {visited : List Path}

/-- Reading a file fails in a way that is not reported. -/
inductive Unreadable (t : Tree) (p : Path) : Failure → Prop where
  | null (hnull : p.hasNull = true) : Unreadable t p .nullInPath
  | noText {bytes : List UInt8} {f : Utf8Fault} (hnull : p.hasNull = false)
      (hread : t.read p = .ok bytes) (hdecode : decodeUtf8 bytes = .error f) :
      Unreadable t p (.decoding f)

theorem ends_readIncluded_iff {p : Path} {e : Failure} :
    Ends (readIncluded t p) (some e) ↔ Unreadable t p e := by
  unfold readIncluded readText readBytes
  cases hnull : p.hasNull with
  | true =>
    simp only [if_true, error_bind, Ends.error_iff, Option.some.injEq]
    constructor
    · rintro ⟨rfl, -⟩
      exact .null hnull
    · intro h
      cases h with
      | null => exact ⟨rfl, rfl⟩
      | noText hfree => simp [hnull] at hfree
  | false =>
    simp only [Bool.false_eq_true, if_false]
    cases hread : t.read p with
    | error f =>
      simp only [failWith, error_bind, Ends.error_iff]
      constructor
      · rintro ⟨-, h⟩
        simp [cannotInclude, Failure.isReported] at h
      · intro h
        cases h with
        | null h => simp [hnull] at h
        | noText _ h => simp [hread] at h
    | ok bytes =>
      cases hdecode : decodeUtf8 bytes with
      | ok chars =>
        simp only [failWith, hdecode, ok_bind, pure_eq_ok, Ends.ok_iff, reduceCtorEq, false_iff]
        intro h
        cases h with
        | null h => simp [hnull] at h
        | noText _ h hfault => simp_all
      | error f =>
        simp only [failWith, hdecode, ok_bind, error_bind, Ends.error_iff, Option.some.injEq]
        constructor
        · rintro ⟨rfl, -⟩
          exact .noText hnull hread hdecode
        · intro h
          cases h with
          | null h => simp [hnull] at h
          | noText _ h hfault => simp_all [Failure.isReported]

/-- The walk over lines of a text, below the visited files, is stopped by no report: it goes
through all of them, or it meets a file that cannot be read. -/
inductive Walks (t : Tree) : List Path → Piece → List String → Option Failure → Prop where
  | done (visited : List Path) (u : Piece) : Walks t visited u [] none
  | copy {visited : List Path} {u : Piece} {line : String} {rest : List String}
      {stop : Option Failure} (hline : isInclude line.toList = false)
      (hrest : Walks t visited u rest stop) : Walks t visited u (line :: rest) stop
  | directive {visited : List Path} {u : Piece} {line : String} {rest : List String} {p : Path}
      {text : String} {stop : Option Failure} (hline : isInclude line.toList = true)
      (htarget : u.target? line = some p) (hread : readIncluded t p = .ok text)
      (hfresh : p.resolved t.current ∉ visited)
      (hinner : Walks t (p.resolved t.current :: visited) (.ofFile p text) (lines text) none)
      (hrest : Walks t visited u rest stop) : Walks t visited u (line :: rest) stop
  | unreadable {visited : List Path} {u : Piece} {line : String} {rest : List String} {p : Path}
      {e : Failure} (hline : isInclude line.toList = true) (htarget : u.target? line = some p)
      (hread : Unreadable t p e) : Walks t visited u (line :: rest) (some e)
  | within {visited : List Path} {u : Piece} {line : String} {rest : List String} {p : Path}
      {text : String} {e : Failure} (hline : isInclude line.toList = true)
      (htarget : u.target? line = some p) (hread : readIncluded t p = .ok text)
      (hfresh : p.resolved t.current ∉ visited)
      (hinner : Walks t (p.resolved t.current :: visited) (.ofFile p text) (lines text) (some e)) :
      Walks t visited u (line :: rest) (some e)

theorem ends_placeInclude_iff {location : Location} {r : Except Failure α} :
    Ends (failWith (placeInclude location line) r) stop ↔ Ends r stop := by
  cases r with
  | ok a => simp [failWith]
  | error e =>
    cases e with
    | assembly d =>
      simp only [failWith, placeInclude, Ends.error_iff]
      split <;> simp [Failure.isReported]
    | _ => rfl

section Lines

variable {t : Tree} {u : Piece} {f : List Path → Path → Except Failure Expanded} {c : Path}
  {visited : List Path} {number : Nat} {stop : Option Failure}

theorem ends_expandLine_iff :
    Ends (expandLine f u.base c visited number line) stop ↔
      isInclude line.toList = false ∧ stop = none ∨
      isInclude line.toList = true ∧ ∃ p, u.target? line = some p ∧ Ends (f visited p) stop := by
  unfold expandLine Piece.target?
  cases hline : isInclude line.toList with
  | false => simp
  | true =>
    cases includeTarget? line.toList with
    | none =>
      simp [placeInclude, cannotInclude, Failure.isReported]
    | some name => simp [ends_placeInclude_iff]

theorem ends_expandLines_cons_iff (hf : Restores f) {rest : List String} :
    Ends (expandLines f u.base c visited number (line :: rest)) stop ↔
      (∃ e, stop = some e ∧ Ends (expandLine f u.base c visited number line) (some e)) ∨
      Ends (expandLine f u.base c visited number line) none ∧
        Ends (expandLines f u.base c visited (number + 1) rest) stop := by
  rw [expandLines, Ends.bind_iff]
  refine or_congr_right ⟨?_, ?_⟩
  · rintro ⟨⟨first, after⟩, hfirst, h⟩
    obtain rfl := expandLine_restores hf hfirst
    exact ⟨⟨_, hfirst⟩, Ends.bind_ok_iff.mp h⟩
  · rintro ⟨⟨⟨first, after⟩, hfirst⟩, h⟩
    obtain rfl := expandLine_restores hf hfirst
    exact ⟨_, hfirst, Ends.bind_ok_iff.mpr h⟩

end Lines

theorem ends_expandWithin_iff {u : Piece} {depth : Nat} (hnull : u.file.hasNull = false) :
    Ends (expandWithin t depth visited u.base u.file u.text) stop ↔
      u.canonical t ∉ visited ∧ ∃ d, depth = d + 1 ∧
        Ends (expandLines (expandIncluded t d) u.base (u.canonical t) (u.canonical t :: visited) 1
          (lines u.text)) stop := by
  rw [expandWithin_eq hnull]
  by_cases hmem : u.canonical t ∈ visited
  · simp [hmem, cycleAt, cannotInclude, Failure.isReported]
  · cases depth with
    | zero => simp [hmem, cycleAt, cannotInclude, Failure.isReported]
    | succ depth =>
      simp only [hmem, if_false, not_false_eq_true, true_and, Nat.add_right_cancel_iff,
        exists_eq_left']
      cases expandLines (expandIncluded t depth) u.base (u.canonical t)
        (u.canonical t :: visited) 1 (lines u.text) <;> simp [Except.map]

/-- Every way in which the expansion of a file that is included can end. -/
theorem ends_expandIncluded_iff {depth : Nat} {p : Path} :
    Ends (expandIncluded t depth visited p) stop ↔
      (∃ e, stop = some e ∧ Unreadable t p e) ∨
      ∃ text, readIncluded t p = .ok text ∧ p.resolved t.current ∉ visited ∧ ∃ d, depth = d + 1 ∧
        Ends (expandLines (expandIncluded t d) p.parent (p.resolved t.current)
          (p.resolved t.current :: visited) 1 (lines text)) stop := by
  rw [expandIncluded, Ends.bind_iff]
  refine or_congr ?_ (exists_congr fun text => and_congr_right fun hread => ?_)
  · simp only [ends_readIncluded_iff]
  · exact ends_expandWithin_iff (u := .ofFile p text) (readText_eq_ok.mp hread).1

/-- The walk into a file: the file cannot be read, or it is not visited yet and its lines are
walked. -/
def Enters (t : Tree) (visited : List Path) (p : Path) (stop : Option Failure) : Prop :=
  (∃ e, stop = some e ∧ Unreadable t p e) ∨
  ∃ text, readIncluded t p = .ok text ∧ p.resolved t.current ∉ visited ∧
    Walks t (p.resolved t.current :: visited) (.ofFile p text) (lines text) stop

theorem walks_cons_iff {u : Piece} {rest : List String} :
    Walks t visited u (line :: rest) stop ↔
      isInclude line.toList = false ∧ Walks t visited u rest stop ∨
      isInclude line.toList = true ∧ ∃ p, u.target? line = some p ∧
        ((∃ e, stop = some e ∧ Enters t visited p (some e)) ∨
          Enters t visited p none ∧ Walks t visited u rest stop) := by
  constructor
  · intro h
    cases h with
    | copy hline hrest => exact .inl ⟨hline, hrest⟩
    | directive hline htarget hread hfresh hinner hrest =>
      exact .inr ⟨hline, _, htarget, .inr ⟨.inr ⟨_, hread, hfresh, hinner⟩, hrest⟩⟩
    | unreadable hline htarget hread =>
      exact .inr ⟨hline, _, htarget, .inl ⟨_, rfl, .inl ⟨_, rfl, hread⟩⟩⟩
    | within hline htarget hread hfresh hinner =>
      exact .inr ⟨hline, _, htarget, .inl ⟨_, rfl, .inr ⟨_, hread, hfresh, hinner⟩⟩⟩
  · rintro (⟨hline, hrest⟩ | ⟨hline, p, htarget, ⟨e, rfl, h⟩ | ⟨h, hrest⟩⟩)
    · exact .copy hline hrest
    · rcases h with ⟨e', he, hread⟩ | ⟨text, hread, hfresh, hinner⟩
      · obtain rfl := Option.some.inj he
        exact .unreadable hline htarget hread
      · exact .within hline htarget hread hfresh hinner
    · rcases h with ⟨e, he, -⟩ | ⟨text, hread, hfresh, hinner⟩
      · simp at he
      · exact .directive hline htarget hread hfresh hinner hrest

/-- The lines are walked as they are expanded, if the files are. -/
theorem ends_expandLines_iff {u : Piece} {c : Path} {f : List Path → Path → Except Failure Expanded}
    (hf : Restores f) (hinner : ∀ p stop, Ends (f visited p) stop ↔ Enters t visited p stop)
    {number : Nat} {ls : List String} :
    Ends (expandLines f u.base c visited number ls) stop ↔ Walks t visited u ls stop := by
  induction ls generalizing number with
  | nil =>
    rw [expandLines, Ends.ok_iff]
    constructor
    · rintro rfl
      exact .done visited u
    · intro h
      cases h
      rfl
  | cons line rest ih =>
    simp only [ends_expandLines_cons_iff hf, ends_expandLine_iff, walks_cons_iff, hinner, ih]
    cases isInclude line.toList with
    | false => simp
    | true =>
      simp only [Bool.true_eq_false, false_and, false_or, true_and]
      constructor
      · rintro (⟨e, rfl, p, htarget, h⟩ | ⟨⟨p, htarget, h⟩, hrest⟩)
        · exact ⟨p, htarget, .inl ⟨e, rfl, h⟩⟩
        · exact ⟨p, htarget, .inr ⟨h, hrest⟩⟩
      · rintro ⟨p, htarget, ⟨e, rfl, h⟩ | ⟨h, hrest⟩⟩
        · exact .inl ⟨e, rfl, p, htarget, h⟩
        · exact .inr ⟨⟨p, htarget, h⟩, hrest⟩

/-- A file is walked as it is expanded, if the depth is not below the number of paths that can
still be met. -/
theorem ends_expandIncluded_iff_enters (ht : t.Grounded) {depth : Nat}
    (hdepth : ((knownPaths t).filter (· ∉ visited)).length ≤ depth) (p : Path)
    (stop : Option Failure) :
    Ends (expandIncluded t depth visited p) stop ↔ Enters t visited p stop := by
  induction depth generalizing visited p stop with
  | zero =>
    rw [ends_expandIncluded_iff, Enters]
    refine or_congr_right (exists_congr fun text => and_congr_right fun hread =>
      and_congr_right fun hfresh => ?_)
    have hless := length_filter_not_mem_cons (resolved_mem_knownPaths ht hread) hfresh
    omega
  | succ depth ih =>
    rw [ends_expandIncluded_iff, Enters]
    refine or_congr_right (exists_congr fun text => and_congr_right fun hread =>
      and_congr_right fun hfresh => ?_)
    have hless := length_filter_not_mem_cons (resolved_mem_knownPaths ht hread) hfresh
    simp only [Nat.add_right_cancel_iff, exists_eq_left']
    exact ends_expandLines_iff (u := .ofFile p text) (expandIncluded_restores t depth)
      (ih (by omega))

/-- The expansion of a file is stopped without a report just where the walk into it meets a file
that cannot be read. -/
theorem ends_expandFile_iff (ht : t.Grounded) {p : Path} :
    Ends (expandFile t [] p) stop ↔ Enters t [] p stop := by
  have hdepth : ((knownPaths t).filter (· ∉ [])).length ≤ includeDepth t := by
    have hle := List.length_filter_le (· ∉ ([] : List Path)) (knownPaths t)
    have hlength : (knownPaths t).length = t.entries.length := List.length_map _
    unfold includeDepth
    omega
  rw [← ends_expandIncluded_iff_enters ht hdepth]
  simp only [expandFile, expandFileVisiting, expandVisiting, pure_eq_ok, Ends.bind_ok_iff]
  rw [expandIncluded, Ends.bind_iff, Ends.bind_iff]
  simp only [Ends.bind_ok_iff]

end Source

end Toolchain6502
