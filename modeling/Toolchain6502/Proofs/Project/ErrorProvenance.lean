import Toolchain6502.Proofs.Assembly.FaultLines
import Toolchain6502.Proofs.Project.ByteProvenance
import Toolchain6502.Proofs.Source.ReportedLine

namespace Toolchain6502.Project

open Assembly Files Source Text

/-- Every line of an expanded file has an origin, at which it is written. -/
theorem origin_of_expanded {t : Tree} (ht : t.Grounded) {p : Path} {u : Traced}
    (h : expandFile t [] p = .ok u) {k : Nat} {line : String} (hline : u.lines[k]? = some line) :
    ∃ o, u.origins[k]? = some o ∧ WrittenAt t o line := by
  obtain ⟨text, ls, hread, hexpands, rfl⟩ := expandFile_eq_ok h
  rw [hexpands.lines_ofLines, List.getElem?_map] at hline
  obtain ⟨l, hl, rfl⟩ := Option.map_eq_some_iff.mp hline
  refine ⟨l.2, ?_, writtenAt_of_expands ht hread hexpands l (List.mem_of_getElem? hl)⟩
  rw [Traced.origins_ofLines, List.getElem?_map, hl]
  rfl

/-- Every fault of an expanded file is traced back. It is reported at a line of the merged text,
and shows this line, which is written at its origin. The number is found in the text of the report,
and takes the diagnostic to the origin with its kind, its message and its line unchanged. Only a
number that is too long to be read is not found. -/
theorem expanded_fault_traced {t : Tree} (ht : t.Grounded) {p : Path} {u : Traced}
    (hexpand : expandFile t [] p = .ok u) (s : Session) {d : Diagnostic}
    (hfail : (s.assembleTraced u).1 = .error (.assembly d)) :
    ∃ (k : Nat) (line : String) (o : Origin), u.lines[k]? = some line ∧
      u.origins[k]? = some o ∧
      d.location = some { file := mergedName, line := (k : Int) + 1 } ∧ d.source = some line ∧
      WrittenAt t o line ∧
      (k + 1 < 10 ^ maxDecimalDigits →
        errorLine? d.render = .ok (some (k + 1)) ∧
        ∀ root, ∃ d', relocate t.current d u.origins root = .ok d' ∧
          d'.fault.kind = d.fault.kind ∧ d'.fault.message = d.fault.message ∧
          d'.location = some (o.locate t.current root) ∧ d'.source = some line) := by
  obtain ⟨k, line, hk, hlocation, hsource⟩ := Session.assembleText_eq_fault hfail
  obtain ⟨o, ho, hwritten⟩ := origin_of_expanded ht hexpand hk
  refine ⟨k, line, o, hk, ho, hlocation, hsource, hwritten, ?_⟩
  intro hshort
  have hnumber : errorLine? d.render = .ok (some (k + 1)) := by
    rw [Diagnostic.render, hlocation]
    exact errorLine?_report (by decide) hshort _ _ _
  refine ⟨hnumber, ?_⟩
  intro root
  exact ⟨_, relocate_of_errorLine hnumber ho t.current root, kind_relocateFault ..,
    message_relocateFault .., rfl, hsource⟩

def misspeltTree : Tree where
  entries := [(["w"], .directory),
    (["w", "main.asm"], .file (encodeUtf8 "Start: NOP\n.include \"jump.inc\"\n".toList)),
    (["w", "jump.inc"], .file (encodeUtf8 "  JMP Strat\n".toList))]
  current := ["w"]

def misspeltUnit : Traced where
  text := "Start: NOP\n  JMP Strat\n"
  origins := [⟨Path.ofText "/w/main.asm", 1⟩, ⟨Path.ofText "/w/jump.inc", 1⟩]

theorem misspeltUnit_traced : misspeltTree.Grounded ∧
    expandFile misspeltTree [] (Path.ofText "main.asm") = .ok misspeltUnit ∧
    ∃ d : Diagnostic,
      (Session.assembleTraced { origin := 0x200 } misspeltUnit).1 = .error (.assembly d) ∧
      d.fault = .undefinedSymbol "Strat" ["Start"] ∧
      WrittenAt misspeltTree ⟨Path.ofText "/w/jump.inc", 1⟩ "  JMP Strat" ∧
      errorLine? d.render = .ok (some 2) ∧
      ∃ d', relocate ["w"] d misspeltUnit.origins none = .ok d' ∧
        d'.location = some { file := "/w/jump.inc", line := 1 } ∧
        d'.source = some "  JMP Strat" := by
  have hgrounded : misspeltTree.Grounded := by decide
  have hexpand : expandFile misspeltTree [] (Path.ofText "main.asm") = .ok misspeltUnit :=
    eq_ok_of_toOption (by decide +kernel)
  have hsimilar : similarNames "Strat" ["Start"] = ["Start"] := by decide +kernel
  have hfail : (Session.assembleTraced { origin := 0x200 } misspeltUnit).1 = .error (.assembly
      ⟨.undefinedSymbol "Strat" (similarNames "Strat" ["Start"]),
        some { file := mergedName, line := 2 }, some "  JMP Strat"⟩) := by
    simp only [Session.assembleTraced, Session.assembleText_eq, assemble_eq]
    rfl
  obtain ⟨k, line, o, -, ho, hlocation, hsource, hwritten, hmoved⟩ :=
    expanded_fault_traced hgrounded hexpand _ hfail
  obtain rfl : k = 1 := by
    have hline : (2 : Int) = k + 1 := congrArg Location.line (Option.some.inj hlocation)
    omega
  obtain rfl : "  JMP Strat" = line := Option.some.inj hsource
  obtain rfl : ⟨Path.ofText "/w/jump.inc", 1⟩ = o := Option.some.inj ho
  obtain ⟨hnumber, hmoved⟩ := hmoved (by decide +kernel)
  obtain ⟨d', hd', -, -, hplace, hline⟩ := hmoved none
  exact ⟨hgrounded, hexpand, _, hfail, congrArg _ hsimilar, hwritten, hnumber, d', hd',
    hplace.trans (by decide +kernel), hline⟩

end Toolchain6502.Project
