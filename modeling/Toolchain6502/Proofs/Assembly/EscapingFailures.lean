import Toolchain6502.Proofs.Assembly.UnvaluedNumerals
import Toolchain6502.Proofs.Assembly.Walks
import Toolchain6502.Proofs.Source.UnreadableFiles

namespace Toolchain6502.Assembly

open Files Source Text

/-- A failure that leaves the assembly of a file and is no report. -/
inductive Escapes (t : Tree) (p : Path) : Failure → Prop where
  /-- The walk over the includes meets a file that cannot be read. -/
  | unreadable {e : Failure} (hwalk : Enters t [] p (some e)) : Escapes t p e
  /-- The first line that cannot be read has a numeral without a value. -/
  | numeral {u : Traced} {n : NumeralFault} {earlier later : List String} {line : String}
      (hexpand : expandFile t [] p = .ok u) (hlines : lines u.text = earlier ++ line :: later)
      (hearlier : ∀ l ∈ earlier, ∃ contents, readContents l.toList = .ok contents)
      (hline : NumeralStatement n (statementText line.toList)) : Escapes t p (.numeral n)

namespace Session

theorem ends_assembleText_iff {s : Session} {text : String} {e : Failure} :
    Ends (s.assembleText text).1 (some e) ↔ ∃ n, e = .numeral n ∧
      readSource mergedName text = .error (.numeral n) := by
  rw [assembleText_eq]
  cases hread : readSource mergedName text with
  | error f =>
    cases f with
    | fault d => simp [ReadFailure.toFailure, Failure.isReported]
    | numeral n => simp [ReadFailure.toFailure, Failure.isReported]
  | ok ss =>
    cases hassemble : assemble s.origin s.predefined ss with
    | ok image => simp [hassemble]
    | error d => simp [hassemble, Failure.isReported]

theorem ends_assembleFile_iff {t : Tree} (ht : t.Grounded) {s : Session} {p : Path} {e : Failure} :
    Ends (s.assembleFile t p).1 (some e) ↔ Escapes t p e := by
  have hwalk : Ends (expandFile t [] p) (some e) ↔ Enters t [] p (some e) :=
    ends_expandFile_iff ht
  unfold assembleFile
  cases hexpand : expandFile t [] p with
  | error f =>
    -- the failure of the expansion is that of the assembly
    have hfailed : Ends (.error f : Except Failure (List UInt8)) (some e) ↔
        Enters t [] p (some e) := by
      rw [← hwalk, hexpand, Ends.error_iff, Ends.error_iff]
    constructor
    · exact fun h => .unreadable (hfailed.mp h)
    · intro h
      cases h with
      | unreadable h => exact hfailed.mpr h
      | numeral h => simp [hexpand] at h
  | ok u =>
    rw [hexpand] at hwalk
    simp only [assembleTraced, ends_assembleText_iff, readSource, readLinesFrom_eq_numeral_iff]
    constructor
    · rintro ⟨n, rfl, earlier, line, later, hlines, hearlier, hline⟩
      exact .numeral hexpand hlines hearlier hline
    · intro h
      cases h with
      | unreadable h => exact absurd (hwalk.mpr h) (by simp)
      | numeral h hlines hearlier hline =>
        obtain rfl := Except.ok.inj (hexpand.symm.trans h)
        exact ⟨_, rfl, _, _, _, hlines, hearlier, hline⟩

theorem image_of_assembleText {s : Session} {text : String} {code : List UInt8}
    (h : (s.assembleText text).1 = .ok code) : (s.assembleText text).2.image.code = code := by
  rw [assembleText_eq] at h ⊢
  cases hread : readSource mergedName text with
  | error f => simp [hread] at h
  | ok ss =>
    cases hassemble : assemble s.origin s.predefined ss with
    | ok image => simpa [hread, hassemble] using h
    | error d => simp [hread, hassemble] at h

theorem image_of_assembleFile {t : Tree} {s : Session} {p : Path} {code : List UInt8}
    (h : (s.assembleFile t p).1 = .ok code) : (s.assembleFile t p).2.image.code = code := by
  unfold assembleFile at h ⊢
  cases hexpand : expandFile t [] p with
  | error e => simp [hexpand] at h
  | ok u =>
    simp only [hexpand, assembleTraced] at h ⊢
    exact image_of_assembleText h

/-- Assembling a file gives its image or a report, unless the walk over the includes meets a file
that cannot be read or the first line that cannot be read has a numeral without a value. Just then
the failure is another one. -/
theorem assembleFile_reports {t : Tree} (ht : t.Grounded) (s : Session) (p : Path) :
    (∀ e, (s.assembleFile t p).1 = .error e ∧ e.isReported = false ↔ Escapes t p e) ∧
    ((∀ e, ¬ Escapes t p e) →
      (∃ code, (s.assembleFile t p).1 = .ok code ∧ (s.assembleFile t p).2.image.code = code) ∨
      ∃ e, (s.assembleFile t p).1 = .error e ∧ e.isReported = true) := by
  have hends e : (s.assembleFile t p).1 = .error e ∧ e.isReported = false ↔ Escapes t p e :=
    ends_assembleFile_iff ht
  refine ⟨hends, fun hescapes => ?_⟩
  cases hresult : (s.assembleFile t p).1 with
  | ok code => exact .inl ⟨code, rfl, image_of_assembleFile hresult⟩
  | error e =>
    refine .inr ⟨e, rfl, ?_⟩
    by_contra h
    exact hescapes e ((hends e).mp ⟨hresult, by simpa using h⟩)

def undecodedTree : Tree where
  entries := [(["w"], .directory), (["w", "b.inc"], .file [0xFF]),
    (["w", "main.asm"], .file (encodeUtf8 "NOP\n.include \"b.inc\"\n".toList))]
  current := ["w"]

theorem undecodedTree_enters :
    Enters undecodedTree [] (Path.ofText "main.asm")
      (some (.decoding ⟨0xFF, 0, 1, .invalidStart⟩)) := by
  have hread : readIncluded undecodedTree (Path.ofText "main.asm") =
      .ok "NOP\n.include \"b.inc\"\n" := eq_ok_of_toOption (by decide +kernel)
  refine .inr ⟨_, hread, by simp, ?_⟩
  rw [show lines "NOP\n.include \"b.inc\"\n" = ["NOP", ".include \"b.inc\""] by decide +kernel]
  refine .copy (by decide +kernel) (.unreadable (p := Path.ofText "b.inc") ?_ ?_ ?_)
  · decide +kernel
  · decide +kernel
  · have hfile : undecodedTree.read (Path.ofText "b.inc") = .ok [0xFF] :=
      eq_ok_of_toOption (by decide +kernel)
    exact .noText (by decide) hfile (by simp [decodeUtf8, decodeFrom, utf8Length?])

theorem undecodedTree_escapes :
    undecodedTree.Grounded ∧ Escapes undecodedTree (Path.ofText "main.asm")
        (.decoding ⟨0xFF, 0, 1, .invalidStart⟩) ∧
      (assembleFile { origin := 0x200 } undecodedTree (Path.ofText "main.asm")).1 =
        .error (.decoding ⟨0xFF, 0, 1, .invalidStart⟩) := by
  have hgrounded : undecodedTree.Grounded := by decide
  have hescapes := Escapes.unreadable undecodedTree_enters
  exact ⟨hgrounded, hescapes, (((assembleFile_reports hgrounded _ _).1 _).mpr hescapes).1⟩

/-- A superscript is a digit and no decimal. -/
def superscriptTree : Tree where
  entries := [(["w"], .directory), (["w", "main.asm"], .file (encodeUtf8 "LDA ²\n".toList))]
  current := ["w"]

theorem superscript_not_reported :
    ∃ e, (assembleFile { origin := 0x200 } superscriptTree (Path.ofText "main.asm")).1 = .error e ∧
      e.isReported = false := by
  have hcheck : (match (assembleFile { origin := 0x200 } superscriptTree
      (Path.ofText "main.asm")).1 with
    | .ok _ => true
    | .error e => e.isReported) = false := by decide +kernel
  cases hresult : (assembleFile { origin := 0x200 } superscriptTree (Path.ofText "main.asm")).1 with
  | ok code => simp [hresult] at hcheck
  | error e => exact ⟨e, rfl, by simpa [hresult] using hcheck⟩

end Session

end Toolchain6502.Assembly
